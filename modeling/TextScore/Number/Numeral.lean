import TextScore.Fault
import TextScore.Text.Character

/-!
# Numerals

Numbers in score text and on a command line, and how they are read.

Integers are unbounded, but neither reading nor writing goes beyond 4300 digits, where it stops with
a fault.  The limit is on the digits as they are written: leading zeros count, the sign does not.
Any decimal digit of any script is a digit, so a numeral need not be ASCII to be read; what is
written is ASCII.

Decimal numbers are read as the nearest double, ties to the even neighbour.  Numbers beyond the
largest double read as infinity and numbers too close to zero as zero; neither is a fault, and what
becomes of an infinite tempo is a question for the stages that divide by it.

* `digitsValue` — the number that a run of digits stands for.
* `readNat`, `readInt` — a run of digits, the latter behind an optional sign.
* `digits`, `writeInt` — the digits of a number.
* `ofDecimal` — a double from the digits before and behind the point and an exponent.
* `readDouble?` — a double from a text, as a command line takes it.
-/

namespace TextScore.Number

open Text

/-! ## Numerals -/

/-- The longest numeral that is read or written. -/
def maxDigits : Nat := 4300

/-- One digit more at the end. -/
def appendDigit (n : Nat) (c : Char) : Nat := 10 * n + (digitValue? c).getD 0

/-- The number that a run of decimal digits stands for. -/
def digitsValue (ds : List Char) : Nat := ds.foldl appendDigit 0

/-- Reads a run of digits. -/
def readNat (ds : List Char) : Except Fault Nat :=
  if ds.length > maxDigits then .error .numeralTooLong else .ok (digitsValue ds)

/-- Reads a run of digits behind an optional sign. -/
def readInt : List Char → Except Fault Int
  | '-' :: ds => do return -(← readNat ds)
  | '+' :: ds => do return (← readNat ds)
  | ds => do return (← readNat ds)

/-- The decimal digits of a number. -/
def digits (n : Nat) : List Char := Nat.toDigits 10 n

/-- The decimal digits of a number, behind a minus sign if it is negative. -/
def signedDigits : Int → List Char
  | .ofNat n => digits n
  | .negSucc n => '-' :: digits (n + 1)

/-- The first number with too many digits to be written. -/
def writableBound : Nat := Nat.pow 10 maxDigits

/-- The number is short enough to be written. -/
def isWritable (n : Int) : Bool := n.natAbs < writableBound

/-- The text of a number. -/
def writeInt (n : Int) : Except Fault (List Char) :=
  if isWritable n then .ok (signedDigits n) else .error .numeralTooLong

/-! ## Reading doubles

A decimal number is computed exactly before it is rounded.  `ofDecimal` asks first where the leading
digit stands, so that an exponent of a million does not make a number of a million digits. -/

/-- Infinity. -/
def infinity : Float := 1 / 0

/-- Not a number. -/
def notANumber : Float := 0 / 0

/-- The double nearest to `whole.fraction * 10 ^ exponent`. -/
def ofDecimal (whole fraction : List Char) (exponent : Int) : Float :=
  let ds := (whole ++ fraction).dropWhile fun c ↦ digitValue? c == some 0
  let scale := exponent - fraction.length
  if ds.isEmpty then 0
  else if 400 < ds.length + scale then infinity
  else if ds.length + scale < -400 then 0
  else Float.ofScientific (digitsValue ds) (scale < 0) scale.natAbs

/-- A blank that may stand around a number.  The information separators may not. -/
def isNumeralBlank (c : Char) : Bool := isBlank c && !(0x1C ≤ c.toNat && c.toNat ≤ 0x1F)

/-- The text without the blanks that may stand around a number. -/
def trimNumeral (s : List Char) : List Char :=
  ((s.dropWhile isNumeralBlank).reverse.dropWhile isNumeralBlank).reverse

/-- The text without its underscores, which may stand between two digits and nowhere else. -/
def dropUnderscores? (afterDigit : Bool) : List Char → Option (List Char)
  | [] => some []
  | c :: s =>
    if c = '_' then
      if afterDigit && s.head?.any isDigit then dropUnderscores? false s else none
    else (dropUnderscores? (isDigit c) s).map (c :: ·)

/-- A sign at the front: whether it is a minus, and what follows. -/
def dropSign : List Char → Bool × List Char
  | '-' :: s => (true, s)
  | '+' :: s => (false, s)
  | s => (false, s)

/-- The exponent behind the digits of a number; without an `e` it is zero. -/
def readExponent? : List Char → Option Int
  | [] => some 0
  | c :: s =>
    let (negative, ds) := dropSign s
    if (c = 'e' ∨ c = 'E') ∧ ds ≠ [] ∧ ds.all isDigit then
      some (if negative then -digitsValue ds else digitsValue ds)
    else none

/-- A number without sign: digits with at most one point, then an exponent. -/
def readUnsigned? (s : List Char) : Option Float :=
  let whole := s.takeWhile isDigit
  let rest := s.dropWhile isDigit
  let (fraction, rest) :=
    match rest with
    | '.' :: r => (r.takeWhile isDigit, r.dropWhile isDigit)
    | r => ([], r)
  if whole.isEmpty && fraction.isEmpty then none
  else (readExponent? rest).map (ofDecimal whole fraction)

/-- A double as a command line gives it: blanks around it, underscores between digits, a sign, the
words for infinity and for not a number in any case, or digits with point and exponent. -/
def readDouble? (s : List Char) : Option Float := do
  let s ← dropUnderscores? false (trimNumeral s)
  let (negative, s) := dropSign s
  let word := s.map Char.toLower
  let x ←
    if word = "inf".toList ∨ word = "infinity".toList then some infinity
    else if word = "nan".toList then some notANumber
    else readUnsigned? s
  return if negative then -x else x

end TextScore.Number
