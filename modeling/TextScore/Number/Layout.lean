import TextScore.Number.Double
import TextScore.Number.Numeral

/-!
# Doubles as text

How the decimal digits of a double are laid out, in the three forms that the program writes.

* `showShortest` — the fewest digits that read back, always with a point or an exponent.
* `showFixed` — a fixed number of digits behind the point.
* `showSignificant` — a number of significant digits, trailing zeros dropped.

The digits themselves come from `TextScore.Number.Double`.  Here they are only given a point or an
exponent, and the doubles without digits get their names; JSON and the other outputs differ in these
names, so they are an argument.
-/

namespace TextScore.Number

/-- The words for the doubles that have no digits. -/
structure SpecialNames where
  /-- Not a number. -/
  nan : String
  /-- Infinity, behind a minus sign if it is negative. -/
  infinity : String

/-- The short names. -/
def SpecialNames.short : SpecialNames := ⟨"nan", "inf"⟩

/-- A minus sign in front of negative numbers. -/
def withSign (negative : Bool) (s : List Char) : List Char := if negative then '-' :: s else s

/-- The text of a double, given the text of its absolute value if it is a number. -/
def showDouble (names : SpecialNames) (absolute : Dyadic → List Char) (x : Float) : List Char :=
  match Double.ofFloat x with
  | .nan => names.nan.toList
  | .infinite negative => withSign negative names.infinity.toList
  | .finite d => withSign d.negative (absolute d)

/-- The digits without the zeros at their end. -/
def dropTrailingZeros (ds : List Char) : List Char := (ds.reverse.dropWhile (· == '0')).reverse

/-- A point `places` digits before the end, behind at least one digit. -/
def insertPoint (ds : List Char) (places : Nat) : List Char :=
  let padded := List.replicate (places + 1 - ds.length) '0' ++ ds
  let whole := padded.length - places
  if places = 0 then padded else padded.take whole ++ '.' :: padded.drop whole

/-- An exponent with its sign and at least two digits. -/
def showExponent (e : Int) : List Char :=
  let ds := digits e.natAbs
  'e' :: (if e < 0 then '-' else '+') :: (List.replicate (2 - ds.length) '0' ++ ds)

/-- One digit, a point, the other digits, and the exponent of the first. -/
def showScientific (ds : List Char) (e : Int) : List Char :=
  match ds with
  | [] => showExponent e
  | [d] => d :: showExponent e
  | d :: rest => d :: '.' :: (rest ++ showExponent e)

/-- The digits `ds`, the first of which has the exponent `e`, laid out with a point and at least
one digit on both sides of it. -/
def showPositional (ds : List Char) (e : Int) : List Char :=
  if e < 0 then '0' :: '.' :: (List.replicate (-e - 1).toNat '0' ++ ds)
  else
    let whole := e.toNat + 1
    let padded := ds ++ List.replicate (whole - ds.length) '0'
    padded.take whole ++ '.' :: (if ds.length ≤ whole then ['0'] else padded.drop whole)

/-- The absolute value in the fewest digits.  Numbers from 0.0001 up to 10 ^ 16 are written without
an exponent. -/
def showShortestAbsolute (d : Dyadic) : List Char :=
  if d.mantissa = 0 then ['0', '.', '0']
  else
    let s := shortest d
    let all := digits s.coefficient
    let e := s.exponent + all.length - 1
    let ds := dropTrailingZeros all
    if -4 ≤ e ∧ e < 16 then showPositional ds e else showScientific ds e

/-- A double in the fewest digits that read back as the same double. -/
def showShortest (names : SpecialNames) (x : Float) : List Char :=
  showDouble names showShortestAbsolute x

/-- A double with `places` digits behind the point. -/
def showFixed (places : Nat) (x : Float) : List Char :=
  showDouble .short (fun d ↦ insertPoint (digits (fixedPlaces d places).coefficient) places) x

/-- The absolute value in at most `count` significant digits.  Numbers from 0.0001 up to
`10 ^ count` are written without an exponent. -/
def showSignificantAbsolute (count : Nat) (d : Dyadic) : List Char :=
  if d.mantissa = 0 then ['0']
  else
    let s := significant d count
    let all := digits s.coefficient
    let e := s.exponent + all.length - 1
    let ds := dropTrailingZeros all
    if -4 ≤ e ∧ e < count then
      if ds.length ≤ e + 1 then ds ++ List.replicate (e + 1 - ds.length).toNat '0'
      else showPositional ds e
    else showScientific ds e

/-- A double in at most `count` significant digits, without trailing zeros. -/
def showSignificant (count : Nat) (x : Float) : List Char :=
  showDouble .short (showSignificantAbsolute count) x

end TextScore.Number
