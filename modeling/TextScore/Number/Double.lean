import TextScore.Fault

/-!
# Doubles, exactly

Times, tempos and beats are doubles, and most of what is done with them is done by the arithmetic of
doubles as it is.  Three things are not: taking the whole part for a MIDI tick, writing a double in
decimal digits, and comparing an integer with the largest double.  These have to be exact, and for
them a double is taken apart into its sign, a whole number and a power of two.

* `Double.ofFloat` — a double as not a number, an infinity, or a signed dyadic number.
* `truncate` — the whole part of a double, toward zero.
* `ofInt` — the double nearest to an integer, ties to the even neighbour.
* `divide` — the quotient of two doubles, with division by zero a fault.
* `leadingExponent` — the power of ten of the first digit of a quotient.
* `roundDiv` — a quotient rounded to the nearest whole number, a half to the even neighbour.
* `shortest` — the fewest digits that read back as the same double and, of those, the nearest.
* `fixedPlaces`, `significant` — so many digits behind the point, or so many in all.

What the arithmetic of doubles itself is worth — the order, signs and rounding errors — is in
`TextScore.Proofs.Number.Value` and the modules that build on it.
-/

namespace TextScore.Number

/-! ## Doubles taken apart -/

/-- The number `± mantissa * 2 ^ exponent`; zero has a sign. -/
structure Dyadic where
  /-- Whether the sign is a minus. -/
  negative : Bool
  /-- The whole number in front. -/
  mantissa : Nat
  /-- The power of two. -/
  exponent : Int
  deriving DecidableEq, Repr

/-- What a double stands for. -/
inductive Double
  /-- Not a number. -/
  | nan
  /-- Plus or minus infinity. -/
  | infinite (negative : Bool)
  /-- A number. -/
  | finite (value : Dyadic)
  deriving DecidableEq, Repr

/-- Reads the sign, the exponent and the fraction out of the 64 bits of a double. -/
def Double.ofBits (bits : Nat) : Double :=
  let negative := bits / Nat.pow 2 63 == 1
  let exponent := bits / Nat.pow 2 52 % Nat.pow 2 11
  let fraction := bits % Nat.pow 2 52
  if exponent = 2047 then
    if fraction = 0 then .infinite negative else .nan
  else if exponent = 0 then .finite ⟨negative, fraction, -1074⟩
  else .finite ⟨negative, fraction + Nat.pow 2 52, exponent - 1075⟩

/-- What a double stands for. -/
def Double.ofFloat (x : Float) : Double := .ofBits x.toBits.toNat

/-- The absolute value as a quotient of two natural numbers. -/
def Dyadic.quotient (d : Dyadic) : Nat × Nat :=
  if 0 ≤ d.exponent then (d.mantissa * Nat.pow 2 d.exponent.toNat, 1)
  else (d.mantissa, Nat.pow 2 (-d.exponent).toNat)

/-- The whole part, toward zero. -/
def Dyadic.truncate (d : Dyadic) : Int :=
  let n : Nat := d.quotient.1 / d.quotient.2
  if d.negative then -n else n

/-- The whole part of a double, toward zero; only numbers have one. -/
def truncate (x : Float) : Except Fault Int :=
  match Double.ofFloat x with
  | .nan => .error .notANumber
  | .infinite _ => .error .infiniteNumber
  | .finite d => .ok d.truncate

/-- The first natural number that rounds beyond the largest double: half a unit in the last place
above it. -/
def doubleBound : Nat := Nat.pow 2 1024 - Nat.pow 2 970

/-- The double nearest to an integer. -/
def ofInt (n : Int) : Except Fault Float :=
  if n.natAbs < doubleBound then .ok (Float.ofInt n) else .error .integerTooLarge

/-- Division, which does not divide by zero. -/
def divide (x y : Float) : Except Fault Float :=
  if y == 0 then .error .divisionByZero else .ok (x / y)

/-! ## Decimal digits of a double

Three ways to write a positive quotient in decimal.  The fewest digits are found by trying grids of
decimals from coarse to fine: on each grid only the two neighbours of the number can read back as
it, and the first grid with a hit has the shortest answer.  All comparisons are between whole
numbers, the denominators multiplied out. -/

/-- How many decimal digits a number has; zero has none. -/
def digitCount (n : Nat) : Nat :=
  if n = 0 then 0 else digitCount (n / 10) + 1
termination_by n
decreasing_by omega

/-- The exponent `k` with `10 ^ k ≤ num / den < 10 ^ (k + 1)`, for a positive quotient. -/
def leadingExponent (num den : Nat) : Int :=
  if den ≤ num then (digitCount (num / den) : Int) - 1
  else -(digitCount ((den - 1) / num) : Int)

/-- The whole number nearest to a quotient; of two equally near ones the even one. -/
def roundDiv (num den : Nat) : Nat :=
  let q := num / den
  let r := num % den
  if 2 * r < den then q
  else if den < 2 * r then q + 1
  else q + q % 2

/-- The quotient `(num / den) / 10 ^ t`, as a quotient. -/
def scaleDown (num den : Nat) (t : Int) : Nat × Nat :=
  (num * Nat.pow 10 (-t).toNat, den * Nat.pow 10 t.toNat)

/-- A positive decimal number, `coefficient * 10 ^ exponent`. -/
structure Decimal where
  /-- The whole number in front. -/
  coefficient : Nat
  /-- The power of ten. -/
  exponent : Int
  deriving DecidableEq, Repr

/-- The numbers that read as the double `mantissa * 2 ^ exponent`, in quarters of its last place:
they lie between `4 * mantissa - below` and `4 * mantissa + 2`, the ends included for an even
mantissa.  Below a power of two the next double is only half as far away. -/
def below (d : Dyadic) : Nat :=
  if d.mantissa = Nat.pow 2 52 ∧ -1074 < d.exponent then 1 else 2

/-- The decimal `c * 10 ^ t` reads as the double `d`. -/
def readsAs (d : Dyadic) (c : Nat) (t : Int) : Bool :=
  let quarters (k : Nat) := k * Nat.pow 2 (d.exponent - 2).toNat * Nat.pow 10 (-t).toNat
  let point := c * Nat.pow 2 (2 - d.exponent).toNat * Nat.pow 10 t.toNat
  let low := quarters (4 * d.mantissa - below d)
  let high := quarters (4 * d.mantissa + 2)
  if d.mantissa % 2 = 0 then low ≤ point && point ≤ high else low < point && point < high

/-- The nearest of the decimals with last digit at `10 ^ t` that read as `d`, if there is one.
Only the two neighbours of `d` on that grid can be. -/
def nearestOnGrid (d : Dyadic) (t : Int) : Option Decimal :=
  let v := scaleDown d.quotient.1 d.quotient.2 t
  let q := v.1 / v.2
  let r := v.1 % v.2
  let up := v.2 < 2 * r || (2 * r == v.2 && q % 2 == 1)
  match readsAs d q t, readsAs d (q + 1) t with
  | true, true => some ⟨if up then q + 1 else q, t⟩
  | true, false => some ⟨q, t⟩
  | false, true => some ⟨q + 1, t⟩
  | false, false => none

/-- The decimal with the fewest digits that reads as the positive number `d`.  Seventeen digits
always suffice. -/
def shortest (d : Dyadic) : Decimal :=
  let e := leadingExponent d.quotient.1 d.quotient.2
  let hit := (List.range 17).findSome? fun n : Nat ↦ nearestOnGrid d (e - n)
  hit.getD ⟨d.mantissa, d.exponent⟩

/-- The decimal with `places` digits behind the point that is nearest to `d`. -/
def fixedPlaces (d : Dyadic) (places : Nat) : Decimal :=
  ⟨roundDiv (d.quotient.1 * Nat.pow 10 places) d.quotient.2, -places⟩

/-- The decimal with `count` significant digits that is nearest to the positive number `d`. -/
def significant (d : Dyadic) (count : Nat) : Decimal :=
  let t := leadingExponent d.quotient.1 d.quotient.2 - count + 1
  let v := scaleDown d.quotient.1 d.quotient.2 t
  let c := roundDiv v.1 v.2
  if c = Nat.pow 10 count then ⟨Nat.pow 10 (count - 1), t + 1⟩ else ⟨c, t⟩

end TextScore.Number
