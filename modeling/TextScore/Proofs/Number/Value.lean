import Mathlib
import TextScore.Number.Double

/-!
# The value of a double

Every double that is a number has a rational value, and doubles compare as their values do.

The times of a score are doubles, and what is stated of them is about numbers: that a note does not
start before another one, that a sum is close to the sum.  So the doubles have to be got out of the
way.  A double is unpacked into a sign, a mantissa and an exponent, and its value is read off the
parts; the arithmetic on doubles is a computation with the parts, and what it does to the values is
shown in the modules that build on this one.

Infinities are given the values `2 ^ 1024` and `-2 ^ 1024`, which lie just beyond all numbers.  Then
the order of doubles is the order of values for all but those that are no number, and in most proofs
infinities need no case of their own.  What is no number has the value zero, which means nothing; a
statement in which this would matter asks for numbers.

There are two ways to take a double apart.  The program does it by division, to print it; here it is
done by the fields of its bits, as the arithmetic does.  `Double.ofFloat_eq` says that these agree.

## What is here

* `Double.ofFloat_eq` — a double taken apart by the program and by its fields.
* `value` — the value of a double.
* `Rounded`, `Canonical` — the mantissas and exponents that doubles have.
* `compare_mul` — how numbers with such mantissas and exponents compare.
* `lt_iff`, `le_iff`, `beq_iff` — the order of doubles is the order of values.
-/

set_option autoImplicit false

namespace TextScore.Number

open Float.Model Float.Model.UnpackedFloat

/-! ## Fields

A double of 64 bits has a sign, an exponent of 11 bits and a mantissa of 52, in front of which there
is a one, if the exponent is not the lowest. -/

/-- The sign is a minus. -/
def isMinus : Sign → Bool
  | .negative => true
  | .positive => false

/-- What an unpacked double stands for. -/
def Double.ofUnpacked : UnpackedFloat → Double
  | .notANumber => .nan
  | .infinity s => .infinite (isMinus s)
  | .zero s => .finite ⟨isMinus s, 0, -1074⟩
  | .finite s m e _ => .finite ⟨isMinus s, m, e⟩

theorem toNat_exponent (b : BitVec 64) :
    (@unpackExponent .binary64 b).toNat = b.toNat / 2 ^ 52 % 2 ^ 11 := by
  simp [unpackExponent, BitVec.extractLsb_toNat, Nat.shiftRight_eq_div_pow]

theorem toNat_mantissa (b : BitVec 64) :
    (@unpackMantissa .binary64 b).toNat = b.toNat % 2 ^ 52 := by
  simp [unpackMantissa, BitVec.extractLsb_toNat]

theorem isMinus_sign (b : BitVec 64) :
    isMinus (Sign.ofBitVec (@unpackSign .binary64 b)) = (b.toNat / Nat.pow 2 63 == 1) := by
  have hsign : (@unpackSign .binary64 b).toNat = b.toNat / 2 ^ 63 := by
    have hb : b.toNat / 2 ^ 63 < 2 := by have := b.isLt; omega
    simp [unpackSign, BitVec.extractLsb_toNat, Nat.shiftRight_eq_div_pow]
    omega
  have hpow : Nat.pow 2 63 = 2 ^ 63 := rfl
  rw [hpow, ← hsign, Sign.ofBitVec]
  generalize @unpackSign .binary64 b = s
  revert s
  decide

theorem toNat_append_one (b : BitVec 52) : (1#1 ++ b).toNat = b.toNat + 2 ^ 52 := by
  rw [BitVec.toNat_append, ← Nat.shiftLeft_add_eq_or_of_lt b.isLt, Nat.add_comm]
  rfl

/-- Reading the bits of a double gives what the double is unpacked to. -/
theorem Double.ofFloat_eq (x : Float) : ofFloat x = ofUnpacked x.toModel.unpack := by
  have hexponent := toNat_exponent x.toModel.toBits.toBitVec
  have hmantissa := toNat_mantissa x.toModel.toBits.toBitVec
  have hsign := isMinus_sign x.toModel.toBits.toBitVec
  have hbits : x.toBits.toNat = x.toModel.toBits.toBitVec.toNat := rfl
  have hpow : Nat.pow 2 52 = 2 ^ 52 ∧ Nat.pow 2 11 = 2 ^ 11 := ⟨rfl, rfl⟩
  rw [ofFloat, ofBits, hbits, hpow.1, hpow.2, ← hexponent, ← hmantissa, ← hsign, Float.Model.unpack,
    UnpackedFloat.unpack]
  have hfull : (@unpackExponent .binary64 x.toModel.toBits.toBitVec).toNat = 2047 ↔
      @unpackExponent .binary64 x.toModel.toBits.toBitVec = -1#11 := by
    rw [← BitVec.toNat_inj]
    rfl
  have hlow : (@unpackExponent .binary64 x.toModel.toBits.toBitVec).toNat = 0 ↔
      @unpackExponent .binary64 x.toModel.toBits.toBitVec = 0#11 := by
    rw [← BitVec.toNat_inj]
    rfl
  have hzero : (@unpackMantissa .binary64 x.toModel.toBits.toBitVec).toNat = 0 ↔
      @unpackMantissa .binary64 x.toModel.toBits.toBitVec = 0#52 := by
    rw [← BitVec.toNat_inj]
    rfl
  dsimp only
  by_cases he : @unpackExponent .binary64 x.toModel.toBits.toBitVec = -1#11
  · rw [if_pos (hfull.mpr he), if_pos he]
    by_cases hm : @unpackMantissa .binary64 x.toModel.toBits.toBitVec = 0#52
    · rw [if_pos (hzero.mpr hm), if_pos hm, ofUnpacked]
    · rw [if_neg (mt hzero.mp hm), if_neg hm, ofUnpacked]
  rw [if_neg (mt hfull.mp he), if_neg he]
  by_cases he' : @unpackExponent .binary64 x.toModel.toBits.toBitVec = 0#11
  · rw [if_pos (hlow.mpr he'), if_pos he']
    by_cases hm : @unpackMantissa .binary64 x.toModel.toBits.toBitVec = 0#52
    · rw [dif_pos hm, ofUnpacked, hzero.mpr hm]
    · rw [dif_neg hm, ofUnpacked, hlow.mpr he']
      rfl
  · rw [if_neg (mt hlow.mp he'), if_neg he', ofUnpacked, toNat_append_one]
    rfl

/-! ## Mantissas and exponents

The mantissa of a double has exactly 53 binary digits, unless the exponent is the lowest.  So no
number has two such forms, and of two numbers the one with the greater exponent is greater. -/

/-- Mantissas and exponents after rounding: the mantissa has 53 digits, or the exponent is the
lowest one. -/
structure Rounded (m : ℕ) (e : ℤ) : Prop where
  /-- The mantissa is not longer than 53 digits. -/
  lt : m < 2 ^ 53
  /-- The lowest exponent. -/
  low : -1074 ≤ e
  /-- The mantissa is not shorter, but for the lowest exponent. -/
  full : 2 ^ 52 ≤ m ∨ e = -1074

/-- The mantissas and exponents that doubles have. -/
structure Canonical (m : ℕ) (e : ℤ) : Prop extends Rounded m e where
  /-- The highest exponent. -/
  high : e ≤ 971

theorem canonical_of_ofFloat {x : Float} {d : Dyadic} (h : Double.ofFloat x = .finite d) :
    Canonical d.mantissa d.exponent := by
  have hpow : Nat.pow 2 52 = 2 ^ 52 ∧ Nat.pow 2 11 = 2 ^ 11 := ⟨rfl, rfl⟩
  rw [Double.ofFloat, Double.ofBits, hpow.1, hpow.2] at h
  split_ifs at h
  all_goals
    cases h
    refine ⟨⟨?_, ?_, ?_⟩, ?_⟩
  all_goals
    dsimp only
    omega

theorem canonical_of_unpack {x : Float} {s : Sign} {m : ℕ} {e : ℤ} {hm : 0 < m}
    (h : x.toModel.unpack = .finite s m e hm) : Canonical m e := by
  have hx := Double.ofFloat_eq x
  rw [h] at hx
  exact canonical_of_ofFloat hx

namespace Canonical

variable {m m' : ℕ} {e e' : ℤ}

theorem mul_lt (h : Canonical m e) : (m : ℚ) * 2 ^ e < 2 ^ 1024 := by
  have hm : (m : ℚ) < 2 ^ 53 := by exact_mod_cast h.lt
  have he : (2 : ℚ) ^ e ≤ 2 ^ (971 : ℤ) := zpow_le_zpow_right₀ (by norm_num) h.high
  calc (m : ℚ) * 2 ^ e < 2 ^ 53 * 2 ^ e := by
        exact mul_lt_mul_of_pos_right hm (by positivity)
    _ ≤ 2 ^ 53 * 2 ^ (971 : ℤ) := by gcongr
    _ = 2 ^ 1024 := by
        rw [← zpow_natCast, ← zpow_natCast, ← zpow_add₀ (by norm_num)]
        rfl

/-- A number with a greater exponent is greater. -/
theorem mul_lt_mul (h : Canonical m e) (h' : Canonical m' e') (he : e < e') :
    (m : ℚ) * 2 ^ e < m' * 2 ^ e' := by
  have hm : (m : ℚ) < 2 ^ 53 := by exact_mod_cast h.lt
  have hm' : (2 : ℚ) ^ 52 ≤ m' := by
    have := h'.full.resolve_right (by have := h.low; omega)
    exact_mod_cast this
  calc (m : ℚ) * 2 ^ e < 2 ^ 53 * 2 ^ e := mul_lt_mul_of_pos_right hm (by positivity)
    _ = 2 ^ 52 * 2 ^ (e + 1) := by rw [zpow_add₀ (by norm_num)]; ring
    _ ≤ 2 ^ 52 * 2 ^ e' := by
        gcongr
        · norm_num
        · omega
    _ ≤ m' * 2 ^ e' := by gcongr

/-- Numbers compare by their exponents first, then by their mantissas. -/
theorem compare_mul (h : Canonical m e) (h' : Canonical m' e') :
    compare ((m : ℚ) * 2 ^ e) (m' * 2 ^ e') = (compare e e').then (compare m m') := by
  rcases lt_trichotomy e e' with he | rfl | he
  · rw [compare_lt_iff_lt.mpr he, compare_lt_iff_lt.mpr (h.mul_lt_mul h' he)]
    rfl
  · rw [compare_eq_iff_eq.mpr rfl, Ordering.eq_then]
    have hpos : (0 : ℚ) < 2 ^ e := by positivity
    rcases lt_trichotomy m m' with hm | rfl | hm
    · rw [compare_lt_iff_lt.mpr hm, compare_lt_iff_lt]
      exact mul_lt_mul_of_pos_right (by exact_mod_cast hm) hpos
    · rw [compare_eq_iff_eq.mpr rfl, compare_eq_iff_eq.mpr rfl]
    · rw [compare_gt_iff_gt.mpr hm, compare_gt_iff_gt]
      exact mul_lt_mul_of_pos_right (by exact_mod_cast hm) hpos
  · rw [compare_gt_iff_gt.mpr he, compare_gt_iff_gt.mpr (h'.mul_lt_mul h he)]
    rfl

end Canonical

/-! ## Values

That a comparison comes out some way says in particular that both doubles are numbers; so
`isNaN_of_le` and `isNaN_of_beq` are where the hypotheses of the other lemmas come from. -/

/-- The value of a double in parts; what is not a number counts as zero. -/
def valueOf : UnpackedFloat → ℚ
  | .notANumber => 0
  | .zero _ => 0
  | .infinity .positive => 2 ^ 1024
  | .infinity .negative => -2 ^ 1024
  | .finite .positive m e _ => m * 2 ^ e
  | .finite .negative m e _ => -(m * 2 ^ e)

/-- The value of a double.  Infinities lie just beyond all numbers; what is no number has the value
zero. -/
def value (x : Float) : ℚ := valueOf x.toModel.unpack

theorem value_of_ofFloat {x : Float} {m : ℕ} {e : ℤ}
    (h : Double.ofFloat x = .finite ⟨false, m, e⟩) : value x = m * 2 ^ e := by
  rw [Double.ofFloat_eq] at h
  rw [value]
  cases hu : x.toModel.unpack with
  | notANumber => rw [hu] at h; cases h
  | infinity s => rw [hu] at h; cases h
  | zero s =>
    rw [hu] at h
    obtain ⟨-, rfl, -⟩ := Dyadic.mk.inj (Double.finite.inj h)
    rw [valueOf, Nat.cast_zero, zero_mul]
  | finite s m' e' hm =>
    rw [hu] at h
    obtain ⟨hs, rfl, rfl⟩ := Dyadic.mk.inj (Double.finite.inj h)
    cases s with
    | negative => cases hs
    | positive => rfl

theorem compare_neg (a b : ℚ) : compare (-a) (-b) = (compare a b).swap := by
  rcases lt_trichotomy a b with h | rfl | h
  · rw [compare_lt_iff_lt.mpr h, compare_gt_iff_gt.mpr (neg_lt_neg h)]
    rfl
  · rw [compare_eq_iff_eq.mpr rfl, compare_eq_iff_eq.mpr rfl]
    rfl
  · rw [compare_gt_iff_gt.mpr h, compare_lt_iff_lt.mpr (neg_lt_neg h)]
    rfl

theorem some_lt {a b : ℚ} (h : a < b) : some .lt = some (compare a b) :=
  congrArg some (compare_lt_iff_lt.mpr h).symm

theorem some_eq {a b : ℚ} (h : a = b) : some .eq = some (compare a b) :=
  congrArg some (compare_eq_iff_eq.mpr h).symm

theorem some_gt {a b : ℚ} (h : b < a) : some .gt = some (compare a b) :=
  congrArg some (compare_gt_iff_gt.mpr h).symm

/-- The mantissa and the exponent are those of a double, if there are any. -/
def IsCanonical : UnpackedFloat → Prop
  | .finite _ m e _ => Canonical m e
  | _ => True

theorem isCanonical_unpack (x : Float) : IsCanonical x.toModel.unpack := by
  cases h : x.toModel.unpack with
  | finite s m e hm => exact canonical_of_unpack h
  | _ => trivial

/-- A number is above zero and below infinity but for its sign. -/
theorem mul_bounds {m : ℕ} {e : ℤ} (hm : 0 < m) (h : Canonical m e) :
    (0 : ℚ) < m * 2 ^ e ∧ (m : ℚ) * 2 ^ e < 2 ^ 1024 :=
  ⟨mul_pos (by exact_mod_cast hm) (by positivity), h.mul_lt⟩

theorem infinity_pos : (0 : ℚ) < 2 ^ 1024 := by positivity

section

variable {u : UnpackedFloat} (hu : IsCanonical u) (hnumber : u.isNaN = false)
include hu hnumber

/-- Infinities lie beyond all numbers. -/
theorem compare_infinity (s : Sign) : (UnpackedFloat.infinity s).compare u =
    some (compare (valueOf (.infinity s)) (valueOf u)) := by
  have hbig := infinity_pos
  cases u with
  | notANumber => cases hnumber
  | infinity s' =>
    cases s <;> cases s'
    case negative.negative => exact some_eq rfl
    case negative.positive => exact some_lt (neg_lt_self hbig)
    case positive.negative => exact some_gt (neg_lt_self hbig)
    case positive.positive => exact some_eq rfl
  | zero s' =>
    cases s
    case negative => exact some_lt (neg_neg_of_pos hbig)
    case positive => exact some_gt hbig
  | finite s' m e hm =>
    obtain ⟨hpos, hlt⟩ := mul_bounds hm hu
    cases s <;> cases s'
    case negative.negative => exact some_lt (neg_lt_neg hlt)
    case negative.positive => exact some_lt ((neg_neg_of_pos hbig).trans hpos)
    case positive.negative => exact some_gt ((neg_neg_of_pos hpos).trans hbig)
    case positive.positive => exact some_gt hlt

/-- The two zeros are equal, and the sign of any other number says on which side of them it is. -/
theorem compare_zero (s : Sign) : (UnpackedFloat.zero s).compare u =
    some (compare (valueOf (.zero s)) (valueOf u)) := by
  have hbig := infinity_pos
  cases u with
  | notANumber => cases hnumber
  | infinity s' =>
    cases s'
    case negative => exact some_gt (neg_neg_of_pos hbig)
    case positive => exact some_lt hbig
  | zero s' => exact some_eq rfl
  | finite s' m e hm =>
    obtain ⟨hpos, -⟩ := mul_bounds hm hu
    cases s'
    case negative => exact some_gt (neg_neg_of_pos hpos)
    case positive => exact some_lt hpos

/-- Numbers of one sign compare by exponent and mantissa. -/
theorem compare_finite (s : Sign) {m : ℕ} {e : ℤ} (hm : 0 < m) (hc : Canonical m e) :
    (UnpackedFloat.finite s m e hm).compare u =
      some (compare (valueOf (.finite s m e hm)) (valueOf u)) := by
  have hbig := infinity_pos
  obtain ⟨hpos, hlt⟩ := mul_bounds hm hc
  cases u with
  | notANumber => cases hnumber
  | infinity s' =>
    cases s <;> cases s'
    case negative.negative => exact some_gt (neg_lt_neg hlt)
    case negative.positive => exact some_lt ((neg_neg_of_pos hpos).trans hbig)
    case positive.negative => exact some_gt ((neg_neg_of_pos hbig).trans hpos)
    case positive.positive => exact some_lt hlt
  | zero s' =>
    cases s
    case negative => exact some_lt (neg_neg_of_pos hpos)
    case positive => exact some_gt hpos
  | finite s' m' e' hm' =>
    have hc' : Canonical m' e' := hu
    obtain ⟨hpos', -⟩ := mul_bounds hm' hc'
    cases s <;> cases s'
    case negative.negative =>
      rw [UnpackedFloat.compare, valueOf, valueOf, compare_neg, hc.compare_mul hc']
    case negative.positive => exact some_lt ((neg_neg_of_pos hpos).trans hpos')
    case positive.negative => exact some_gt ((neg_neg_of_pos hpos').trans hpos)
    case positive.positive => rw [UnpackedFloat.compare, valueOf, valueOf, hc.compare_mul hc']

end

/-- Doubles that are numbers compare as their values do. -/
theorem compare_unpack {x y : Float} (hx : x.isNaN = false) (hy : y.isNaN = false) :
    x.toModel.unpack.compare y.toModel.unpack = some (compare (value x) (value y)) := by
  have hx' : x.toModel.unpack.isNaN = false := hx
  have hcanonical := isCanonical_unpack x
  rw [value, value]
  cases hu : x.toModel.unpack with
  | notANumber => rw [hu] at hx'; cases hx'
  | infinity s => exact compare_infinity (isCanonical_unpack y) hy s
  | zero s => exact compare_zero (isCanonical_unpack y) hy s
  | finite s m e hm =>
    rw [hu] at hcanonical
    exact compare_finite (isCanonical_unpack y) hy s hm hcanonical

theorem lt_iff_compare (x y : Float) :
    x < y ↔ x.toModel.unpack.compare y.toModel.unpack = some .lt := by
  show decide (UnpackedFloat.lt _ _ = true) = true ↔ _
  rw [decide_eq_true_iff, UnpackedFloat.lt, beq_iff_eq]

theorem le_iff_compare (x y : Float) :
    x ≤ y ↔ (x.toModel.unpack.compare y.toModel.unpack).any (·.isLE) = true := by
  show decide (UnpackedFloat.le _ _ = true) = true ↔ _
  rw [decide_eq_true_iff, UnpackedFloat.le]

/-- Numbers are in the order of their values. -/
theorem lt_iff {x y : Float} (hx : x.isNaN = false) (hy : y.isNaN = false) :
    x < y ↔ value x < value y := by
  rw [lt_iff_compare, compare_unpack hx hy, Option.some_inj, compare_lt_iff_lt]

/-- Numbers are in the order of their values. -/
theorem le_iff {x y : Float} (hx : x.isNaN = false) (hy : y.isNaN = false) :
    x ≤ y ↔ value x ≤ value y := by
  rw [le_iff_compare, compare_unpack hx hy, Option.any_some, Ordering.isLE_iff_ne_gt,
    compare_gt_iff_gt, not_lt]

/-- Only numbers are in an order. -/
theorem isNaN_of_le {x y : Float} (h : x ≤ y) : x.isNaN = false ∧ y.isNaN = false := by
  rw [le_iff_compare] at h
  show x.toModel.unpack.isNaN = false ∧ y.toModel.unpack.isNaN = false
  cases hx : x.toModel.unpack <;> cases hy : y.toModel.unpack
  all_goals
    first
    | exact ⟨rfl, rfl⟩
    | (rw [hx, hy] at h; cases h)

/-- Doubles are in order if there is one between them. -/
theorem le_of_le_of_le {x y z : Float} (h : x ≤ y) (h' : y ≤ z) : x ≤ z := by
  obtain ⟨hx, hy⟩ := isNaN_of_le h
  obtain ⟨-, hz⟩ := isNaN_of_le h'
  rw [le_iff hx hy] at h
  rw [le_iff hy hz] at h'
  exact (le_iff hx hz).mpr (h.trans h')

theorem beq_iff_compare (x y : Float) :
    (x == y) = true ↔ x.toModel.unpack.compare y.toModel.unpack = some .eq := by
  show (x.toModel.unpack.compare y.toModel.unpack == some .eq) = true ↔ _
  rw [beq_iff_eq]

/-- Numbers are equal if their values are. -/
theorem beq_iff {x y : Float} (hx : x.isNaN = false) (hy : y.isNaN = false) :
    (x == y) = true ↔ value x = value y := by
  rw [beq_iff_compare, compare_unpack hx hy, Option.some_inj, compare_eq_iff_eq]

/-- Only numbers are equal to something. -/
theorem isNaN_of_beq {x y : Float} (h : (x == y) = true) : y.isNaN = false := by
  rw [beq_iff_compare] at h
  show y.toModel.unpack.isNaN = false
  cases hy : y.toModel.unpack with
  | notANumber =>
    rw [hy] at h
    cases hx : x.toModel.unpack <;> rw [hx] at h <;> cases h
  | _ => rfl

end TextScore.Number
