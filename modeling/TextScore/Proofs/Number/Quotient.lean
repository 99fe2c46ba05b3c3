import TextScore.Proofs.Number.Scaling

/-!
# Quotients

A quotient of doubles is rounded like a product, but it is not exact before that: the division
leaves a remainder, which only decides in which direction the last digit is rounded.

So the quotient is not a mantissa with an exponent when it is rounded, but a number between one and
the next.  Whatever the remainder is, the result of rounding is one of these two neighbours, after
the digits that are too many have been given up.  That is all that is shown of it, and it is enough:
it gives an error of one part in `2 ^ 52`, and it gives that no quotient is rounded across a double,
since there is no double between two neighbours.  The second is what makes limits exact: a quotient
is below a double if it was before rounding, or equal to it.

## What is here

* `Floors` — a number between a mantissa with an exponent and the next mantissa.
* `roundWithAccuracy_floors` — rounding stays between the two, whatever was lost before.
* `div_floors` — the quotient of rounded numbers, before it is packed.
* `value_div` — a quotient that is neither too small nor too large, and `value_div_close` its error.
* `le_of_lt_next`, `le_value_div`, `value_div_le_of_lt` — a quotient is not rounded across a double.

Quotients of less than `2 ^ -100` or more than `2 ^ 100` are left out.  The quotients here are tempi
in seconds and microseconds of quarter notes, which are nowhere near that.
-/

set_option autoImplicit false

namespace TextScore.Number

open Float.Model Float.Model.UnpackedFloat

/-! ## Numbers between two mantissas

To give up digits of the mantissa widens the interval, and the number is still in it. -/

/-- The number is not below a mantissa with its exponent, and below the next mantissa. -/
structure Floors (x : ℚ) (m : ℕ) (e : ℤ) : Prop where
  /-- It is not below. -/
  le : (m : ℚ) * 2 ^ e ≤ x
  /-- It is below the next one. -/
  lt : x < (m + 1) * 2 ^ e

/-- The last digits of a mantissa can be given up. -/
theorem Floors.shorten {x : ℚ} {m : ℕ} {e : ℤ} (h : Floors x m e) (k : ℕ) :
    Floors x (m / 2 ^ k) (e + k) := by
  have hpow : (0 : ℚ) < 2 ^ e := by positivity
  have hfloor : ((m / 2 ^ k : ℕ) : ℚ) * 2 ^ k ≤ m := by
    exact_mod_cast Nat.div_mul_le_self m (2 ^ k)
  have hfloor' : (m : ℚ) + 1 ≤ ((m / 2 ^ k : ℕ) + 1) * 2 ^ k := by
    have := Nat.lt_div_mul_add (a := m) (by positivity : 0 < 2 ^ k)
    rw [add_one_mul]
    exact_mod_cast this
  have hexponent : (2 : ℚ) ^ (e + k) = 2 ^ k * 2 ^ e := by
    rw [zpow_add₀ (by norm_num), zpow_natCast, mul_comm]
  rw [← mul_le_mul_iff_left₀ hpow] at hfloor hfloor'
  constructor
  · rw [hexponent, ← mul_assoc]
    exact hfloor.trans h.le
  · rw [hexponent, ← mul_assoc]
    exact h.lt.trans_le hfloor'

/-- There is no double between a mantissa of 53 digits and the next one. -/
theorem le_of_lt_next {m r : ℕ} {e f : ℤ} (hm : 2 ^ 52 ≤ m ∨ e = -1074) (hr : Rounded r f)
    (h : (r : ℚ) * 2 ^ f < (m + 1) * 2 ^ e) : (r : ℚ) * 2 ^ f ≤ m * 2 ^ e := by
  have hpow : (0 : ℚ) < 2 ^ e := by positivity
  rcases le_or_gt e f with hef | hfe
  · -- the double is a multiple of the last place
    obtain ⟨k, rfl⟩ := Int.le.dest hef
    have hshift : (r : ℚ) * 2 ^ (e + k) = (r * 2 ^ k : ℕ) * 2 ^ e := by
      rw [zpow_add₀ (by norm_num), zpow_natCast]
      push_cast
      ring
    rw [hshift] at h ⊢
    have hlt := lt_of_mul_lt_mul_right h hpow.le
    have hle : r * 2 ^ k ≤ m := Nat.lt_succ_iff.mp (by exact_mod_cast hlt)
    exact mul_le_mul_of_nonneg_right (by exact_mod_cast hle) hpow.le
  · -- the double has fewer digits in front of the last place
    have hlow := hr.low
    have hfull : (2 : ℚ) ^ 52 ≤ m := by exact_mod_cast hm.resolve_right (by omega)
    have hlt : (r : ℚ) < 2 ^ 53 := by exact_mod_cast hr.lt
    calc (r : ℚ) * 2 ^ f ≤ 2 ^ 53 * 2 ^ (e - 1) := by
          refine mul_le_mul hlt.le ?_ (by positivity) (by norm_num)
          exact zpow_le_zpow_right₀ (by norm_num) (by omega)
      _ = 2 ^ 52 * 2 ^ e := by
          rw [zpow_sub₀ (by norm_num)]
          ring
      _ ≤ m * 2 ^ e := mul_le_mul_of_nonneg_right hfull hpow.le

/-! ## Rounding -/

theorem mantissa_ofMantissaAndAccuracy (m : ℕ) (a : Accuracy) :
    (ExtendedMantissa.ofMantissaAndAccuracy m a).mantissa = m := by
  rcases a with _ | _ | _ | _ <;> rfl

/-- One in the last place is a small part of a number whose mantissa is not short. -/
theorem place_le {m : ℕ} {e : ℤ} (hm : 2 ^ 52 ≤ m) :
    (2 : ℚ) ^ excess m e * 2 ^ e ≤ m * 2 ^ e / 2 ^ 52 + lowest := by
  rcases Nat.eq_zero_or_pos (excess m e) with hzero | hexcess
  · have hm' : (2 : ℚ) ^ 52 ≤ m := by exact_mod_cast hm
    have hone : (1 : ℚ) ≤ m / 2 ^ 52 := by rwa [le_div_iff₀ (by positivity), one_mul]
    have hscaled := mul_le_mul_of_nonneg_right hone (by positivity : (0 : ℚ) ≤ 2 ^ e)
    have := lowest_nonneg
    rw [hzero, pow_zero]
    calc (1 : ℚ) * 2 ^ e ≤ m / 2 ^ 52 * 2 ^ e := hscaled
      _ = m * 2 ^ e / 2 ^ 52 := by ring
      _ ≤ m * 2 ^ e / 2 ^ 52 + lowest := by linarith
  · exact (unit_le (by omega) hexcess).trans (add_le_add_right (slack_le e) _)

/-- Rounding leads to one of two neighbours, whatever was lost before. -/
theorem roundWithAccuracy_floors {x : ℚ} {m : ℕ} {e : ℤ} (hm : 2 ^ 52 ≤ m) (hx : Floors x m e)
    (a : Accuracy) :
    let u := roundWithAccuracy .binary64 .positive m e a
    IsRounded u ∧ u.isNaN = false ∧ ∃ q t, Floors x q t ∧ (2 ^ 52 ≤ q ∨ t = -1074) ∧
      (2 : ℚ) ^ t ≤ x / 2 ^ 52 + lowest ∧ q * 2 ^ t ≤ valueOf u ∧ valueOf u ≤ (q + 1) * 2 ^ t := by
  have hpos : 0 < m := by omega
  obtain ⟨hge, hle⟩ := roundedMantissa_bounds
    (ExtendedMantissa.ofMantissaAndAccuracy m a >>> excess m e)
  rw [mantissa_shiftRight, mantissa_ofMantissaAndAccuracy] at hge hle
  -- what was lost before only matters for the choice between the neighbours
  have heq : roundWithAccuracy .binary64 .positive m e a =
      let r := (ExtendedMantissa.ofMantissaAndAccuracy m a >>> excess m e).roundedMantissa
      let p := shiftToTargetExponent .binary64 r (e + excess m e) .exact
      if h : p.1.mantissa = 0 then .zero .positive
      else .finite .positive p.1.mantissa p.2 (Nat.pos_of_ne_zero h) := rfl
  rw [heq]
  generalize (ExtendedMantissa.ofMantissaAndAccuracy m a >>> excess m e).roundedMantissa = r at *
  obtain ⟨hshort, hlow, hfull⟩ := excess_ok hpos (.inl hm) hge hle
  obtain ⟨-, -, hfull'⟩ := excess_ok hpos (.inl hm) le_rfl (Nat.le_succ (m / 2 ^ excess m e))
  obtain ⟨hrounded, hvalue⟩ := shift_rounded hshort hlow hfull
  have hplace : (2 : ℚ) ^ (e + excess m e) ≤ x / 2 ^ 52 + lowest := by
    have := div_le_div_of_nonneg_right hx.le (by positivity : (0 : ℚ) ≤ 2 ^ 52)
    rw [zpow_add₀ (by norm_num), zpow_natCast, mul_comm]
    linarith [place_le (e := e) hm]
  have hbounds : ((m / 2 ^ excess m e : ℕ) : ℚ) * 2 ^ (e + excess m e) ≤
        r * 2 ^ (e + excess m e) ∧ (r : ℚ) * 2 ^ (e + excess m e) ≤
        ((m / 2 ^ excess m e : ℕ) + 1) * 2 ^ (e + excess m e) := by
    constructor
    · exact mul_le_mul_of_nonneg_right (by exact_mod_cast hge) (by positivity)
    · exact mul_le_mul_of_nonneg_right (by exact_mod_cast hle) (by positivity)
  rw [← hvalue] at hbounds
  dsimp only
  -- a mantissa that is rounded to zero makes a zero, of the same value
  split_ifs with hzero
  · rw [hzero, Nat.cast_zero, zero_mul] at hbounds
    exact ⟨trivial, rfl, _, _, hx.shorten _, hfull', hplace, hbounds⟩
  · exact ⟨hrounded, rfl, _, _, hx.shorten _, hfull', hplace, hbounds⟩

/-! ## Quotients of mantissas

The first mantissa is shifted so far that the quotient has 53 digits at least. -/

/-- The quotient of two mantissas, the first one shifted far enough, has 53 digits or more. -/
theorem le_shiftLeft_div {m m' s : ℕ} (hm : 0 < m) (hm' : 0 < m')
    (hs : m'.log2 + 53 ≤ m.log2 + s) : 2 ^ 52 ≤ m <<< s / m' := by
  rw [Nat.le_div_iff_mul_le hm', Nat.shiftLeft_eq]
  calc 2 ^ 52 * m' ≤ 2 ^ 52 * 2 ^ (m'.log2 + 1) := Nat.mul_le_mul_left _ Nat.lt_log2_self.le
    _ = 2 ^ (m'.log2 + 53) := by rw [← pow_add]; congr 1; omega
    _ ≤ 2 ^ (m.log2 + s) := Nat.pow_le_pow_right (by norm_num) hs
    _ = 2 ^ m.log2 * 2 ^ s := pow_add ..
    _ ≤ m * 2 ^ s := Nat.mul_le_mul_right _ (Nat.log2_self_le hm.ne')

/-- A number that is not too small begins at a place that is not too low. -/
theorem log2_add_le {m m' : ℕ} {e e' : ℤ} (k : ℕ) (hm' : 0 < m')
    (hle : (m' : ℚ) * 2 ^ e' ≤ m * 2 ^ e * 2 ^ k) : (m'.log2 : ℤ) + e' ≤ m.log2 + e + k := by
  have hlow : (2 : ℚ) ^ m'.log2 ≤ m' := by exact_mod_cast Nat.log2_self_le hm'.ne'
  have hhigh : (m : ℚ) < 2 ^ (m.log2 + 1) := by exact_mod_cast Nat.lt_log2_self
  have hlt : (2 : ℚ) ^ ((m'.log2 : ℤ) + e') < 2 ^ (((m.log2 + 1 : ℕ) : ℤ) + e + k) := by
    rw [zpow_add₀ (by norm_num), zpow_add₀ (by norm_num), zpow_add₀ (by norm_num), zpow_natCast,
      zpow_natCast, zpow_natCast]
    calc (2 : ℚ) ^ m'.log2 * 2 ^ e' ≤ m' * 2 ^ e' :=
          mul_le_mul_of_nonneg_right hlow (by positivity)
      _ ≤ m * 2 ^ e * 2 ^ k := hle
      _ < 2 ^ (m.log2 + 1) * 2 ^ e * 2 ^ k :=
          mul_lt_mul_of_pos_right (mul_lt_mul_of_pos_right hhigh (by positivity)) (by positivity)
  have := (zpow_lt_zpow_iff_right₀ (by norm_num : (1 : ℚ) < 2)).mp hlt
  omega

/-- The number is between the quotient of the mantissas and the next one. -/
theorem floors_shiftLeft_div {m m' s : ℕ} {e e' t : ℤ} (hm' : 0 < m') (hs : (s : ℤ) = e - e' - t) :
    Floors (m * 2 ^ e / (m' * 2 ^ e')) (m <<< s / m') t := by
  have hpos : (0 : ℚ) < m' * 2 ^ e' := by positivity
  have hfloor : ((m <<< s / m' : ℕ) : ℚ) * m' ≤ m * 2 ^ s := by
    have := Nat.div_mul_le_self (m <<< s) m'
    rw [Nat.shiftLeft_eq] at this ⊢
    exact_mod_cast this
  have hfloor' : (m : ℚ) * 2 ^ s < ((m <<< s / m' : ℕ) + 1) * m' := by
    have := Nat.lt_div_mul_add (a := m <<< s) hm'
    rw [Nat.shiftLeft_eq] at this ⊢
    rw [add_one_mul]
    exact_mod_cast this
  have hexponent : (2 : ℚ) ^ s * (2 ^ t * 2 ^ e') = 2 ^ e := by
    rw [← zpow_natCast, ← zpow_add₀ (by norm_num), ← zpow_add₀ (by norm_num)]
    congr 1
    omega
  have hmantissa : (m : ℚ) * 2 ^ e = m * 2 ^ s * (2 ^ t * 2 ^ e') := by rw [mul_assoc, hexponent]
  constructor
  · rw [le_div_iff₀ hpos, hmantissa]
    calc ((m <<< s / m' : ℕ) : ℚ) * 2 ^ t * (m' * 2 ^ e')
        = ((m <<< s / m' : ℕ) : ℚ) * m' * (2 ^ t * 2 ^ e') := by ring
      _ ≤ m * 2 ^ s * (2 ^ t * 2 ^ e') := mul_le_mul_of_nonneg_right hfloor (by positivity)
  · rw [div_lt_iff₀ hpos, hmantissa]
    calc (m : ℚ) * 2 ^ s * (2 ^ t * 2 ^ e')
        < ((m <<< s / m' : ℕ) + 1) * m' * (2 ^ t * 2 ^ e') :=
          mul_lt_mul_of_pos_right hfloor' (by positivity)
      _ = ((m <<< s / m' : ℕ) + 1) * 2 ^ t * (m' * 2 ^ e') := by ring

/-- A quotient that is not too small is rounded to one of its neighbours. -/
theorem div_floors {m m' : ℕ} {e e' : ℤ} (hm : 0 < m) (hm' : 0 < m')
    (hle : (m' : ℚ) * 2 ^ e' ≤ m * 2 ^ e * 2 ^ 100) :
    let x : ℚ := m * 2 ^ e / (m' * 2 ^ e')
    let u := UnpackedFloat.div .binary64 (.finite .positive m e hm) (.finite .positive m' e' hm')
    IsRounded u ∧ u.isNaN = false ∧ ∃ q t, Floors x q t ∧ (2 ^ 52 ≤ q ∨ t = -1074) ∧
      (2 : ℚ) ^ t ≤ x / 2 ^ 52 + lowest ∧ q * 2 ^ t ≤ valueOf u ∧ valueOf u ≤ (q + 1) * 2 ^ t := by
  dsimp only
  have hlog := log2_add_le 100 hm' hle
  obtain ⟨t, ht⟩ : ∃ t : ℤ, t = min (e - e')
      (max ((m.log2 : ℤ) + 1 + e - (m'.log2 + 1 + e') - 53) (-1074)) := ⟨_, rfl⟩
  have hdiv : UnpackedFloat.div .binary64 (.finite .positive m e hm) (.finite .positive m' e' hm') =
      roundWithAccuracy .binary64 .positive (m <<< (e - e' - t).toNat / m') t
        (accuracyOfFraction (m <<< (e - e' - t).toNat % m') m') := by
    rw [ht]
    rfl
  rw [hdiv]
  generalize accuracyOfFraction _ m' = a
  have hshift : ((e - e' - t).toNat : ℤ) = e - e' - t := Int.toNat_of_nonneg (by omega)
  generalize (e - e' - t).toNat = s at hshift
  have hfull : 2 ^ 52 ≤ m <<< s / m' := le_shiftLeft_div hm hm' (by omega)
  exact roundWithAccuracy_floors hfull (floors_shiftLeft_div hm' hshift) a

/-! ## Quotients of doubles

The bounds of `2 ^ 100` keep the quotient away from the lowest and the highest exponent. -/

/-- A positive number, taken apart. -/
theorem unpack_of_pos {x : Float} (hx : x.isFinite = true) (hpos : 0 < value x) :
    ∃ m e, ∃ hm : 0 < m, x.toModel.unpack = .finite .positive m e hm := by
  have hfinite : x.toModel.unpack.isFinite = true := hx
  have hunsigned := unsigned_iff.mpr hpos.le
  rw [value] at hpos
  generalize x.toModel.unpack = u at *
  cases hunsigned with
  | notANumber => cases hfinite
  | infinity => cases hfinite
  | zero s => exact absurd hpos (lt_irrefl _)
  | finite m e hm => exact ⟨m, e, hm, rfl⟩

/-- A double above zero has a rounded mantissa and exponent for its value. -/
theorem exists_rounded {x : Float} (hx : x.isFinite = true) (hpos : 0 < value x) :
    ∃ m e, Rounded m e ∧ value x = m * 2 ^ e := by
  obtain ⟨m, e, hm, hu⟩ := unpack_of_pos hx hpos
  refine ⟨m, e, (canonical_of_unpack hu).toRounded, ?_⟩
  rw [value, hu, valueOf]

section

variable {x y : Float} (hx : x.isFinite = true) (hy : y.isFinite = true) (hpos : 0 < value y)
  (hle : value y ≤ value x * 2 ^ 100) (hlt : value x / value y < 2 ^ 100)

include hx hy hpos hle hlt

/-- **Quotients.**  A quotient that is neither too small nor too large is rounded to one of its
neighbours. -/
theorem value_div : (x / y).isFinite = true ∧ 0 ≤ value (x / y) ∧
    ∃ (q : ℕ) (t : ℤ), Floors (value x / value y) q t ∧ (2 ^ 52 ≤ q ∨ t = -1074) ∧
      (2 : ℚ) ^ t ≤ value x / value y / 2 ^ 52 + lowest ∧
      q * 2 ^ t ≤ value (x / y) ∧ value (x / y) ≤ (q + 1) * 2 ^ t := by
  have hpos' : 0 < value x := by
    have := hpos.trans_le hle
    exact (mul_pos_iff_of_pos_right (by positivity)).mp this
  obtain ⟨m, e, hm, hu⟩ := unpack_of_pos hx hpos'
  obtain ⟨m', e', hm', hv⟩ := unpack_of_pos hy hpos
  have hvalue : value x = m * 2 ^ e := by rw [value, hu, valueOf]
  have hvalue' : value y = m' * 2 ^ e' := by rw [value, hv, valueOf]
  rw [hvalue, hvalue'] at hle hlt ⊢
  obtain ⟨hrounded, hnumber, q, t, hfloors, hfull, hplace, hbounds⟩ := div_floors hm hm' hle
  have hunsigned : Unsigned (UnpackedFloat.div .binary64 (.finite .positive m e hm)
      (.finite .positive m' e' hm')) :=
    Unsigned.div (.finite m e hm) (.finite m' e' hm') fun s h ↦ by cases h
  have hmodel : (x / y).toModel = Float.Model.pack (UnpackedFloat.div .binary64
      (.finite .positive m e hm) (.finite .positive m' e' hm')) := by
    rw [← hu, ← hv]
    rfl
  -- the quotient is not too large, so it is packed as a number
  have hsmall : valueOf (UnpackedFloat.div .binary64 (.finite .positive m e hm)
      (.finite .positive m' e' hm')) < 2 ^ 1024 := by
    have hlowest : lowest ≤ 1 := zpow_le_one_of_nonpos₀ (by norm_num) (by norm_num)
    calc valueOf (UnpackedFloat.div .binary64 (.finite .positive m e hm)
          (.finite .positive m' e' hm'))
        ≤ (q + 1) * 2 ^ t := hbounds.2
      _ < 2 ^ 102 := by linarith [hfloors.le]
      _ ≤ 2 ^ 1024 := pow_le_pow_right₀ (by norm_num) (by norm_num)
  have hfinite : (x / y).isFinite = true := by
    show (x / y).toModel.unpack.isFinite = true
    rw [hmodel]
    exact isFinite_pack hunsigned hrounded hnumber hsmall
  obtain ⟨-, hpacked⟩ := isFinite_of_pack hrounded hmodel hfinite
  rw [hpacked]
  exact ⟨hfinite, unsigned_iff.mp hunsigned, q, t, hfloors, hfull, hplace, hbounds⟩

/-- A quotient is off by at most one part in `2 ^ 52`, but for the lowest place. -/
theorem value_div_close :
    |value (x / y) - value x / value y| ≤ value x / value y / 2 ^ 52 + lowest := by
  obtain ⟨-, -, q, t, hfloors, -, hplace, hlow, hhigh⟩ := value_div hx hy hpos hle hlt
  have hnear := hfloors.le
  have hnear' := hfloors.lt
  rw [abs_le]
  constructor <;> linarith

/-- A quotient that is not below a double is not rounded below it. -/
theorem le_value_div {z : Float} (hz : z.isFinite = true) (hzpos : 0 < value z)
    (h : value z ≤ value x / value y) : value z ≤ value (x / y) := by
  obtain ⟨-, -, q, t, hfloors, hfull, -, hlow, -⟩ := value_div hx hy hpos hle hlt
  obtain ⟨r, f, hr, hvalue⟩ := exists_rounded hz hzpos
  rw [hvalue] at h ⊢
  exact (le_of_lt_next hfull hr (h.trans_lt hfloors.lt)).trans hlow

/-- A quotient below a double is not rounded above it. -/
theorem value_div_le_of_lt {z : Float} (hz : z.isFinite = true)
    (h : value x / value y < value z) : value (x / y) ≤ value z := by
  obtain ⟨-, -, q, t, hfloors, hfull, -, -, hhigh⟩ := value_div hx hy hpos hle hlt
  have hzpos : 0 < value z := lt_of_le_of_lt (le_trans (by positivity) hfloors.le) h
  obtain ⟨r, f, hr, hvalue⟩ := exists_rounded hz hzpos
  rw [hvalue] at h ⊢
  by_contra hcross
  exact absurd (le_of_lt_next hfull hr (by linarith)) (not_le.mpr (hfloors.le.trans_lt h))

end

end TextScore.Number
