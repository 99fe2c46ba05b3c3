import TextScore.Proofs.Number.Arithmetic
import TextScore.Proofs.Number.Layout

/-!
# Products with powers of two

A double times a power of two that is not below one is exact, unless it is too large: nothing of the
mantissa is lost.

The mantissa of the power is a one with 52 zeros behind it.  So the product of the mantissas is the
first one with 52 zeros behind it, and these are what is given up in rounding.  It is used for the
seconds of a listing, which are printed in quarters of a character: a time can be written in a
timeline of a width that can be counted exactly if it is below a limit, and there is nothing
between.

## What is here

* `shortened_mul_pow` — zeros behind a mantissa can be dropped.
* `mul_pow_ok` — the product with a power of two is exact.
* `value_mul_four` — four times a double, as long as it is no infinity.
* `truncate_mul_four_iff` — the doubles whose fourfold has a whole part that is not too large.
-/

set_option autoImplicit false

namespace TextScore.Number

open Float.Model Float.Model.UnpackedFloat

theorem shiftRight_mul_pow (m k : ℕ) :
    ExtendedMantissa.mk (m * 2 ^ k) false false >>> k = ExtendedMantissa.mk m false false := by
  show k.repeat ExtendedMantissa.shiftRightOne _ = _
  induction k generalizing m with
  | zero => rw [Nat.repeat, pow_zero, Nat.mul_one]
  | succ k ih =>
    have hdouble : ExtendedMantissa.shiftRightOne ⟨m * 2, false, false⟩ = ⟨m, false, false⟩ := by
      simp [ExtendedMantissa.shiftRightOne]
    rw [Nat.repeat, pow_succ, Nat.mul_comm (2 ^ k), ← Nat.mul_assoc, ih, hdouble]

/-- Zeros behind a mantissa can be dropped. -/
theorem shortened_mul_pow (m k : ℕ) : shortened (m * 2 ^ k) k = m := by
  rw [shortened, shiftRight_mul_pow]
  rfl

/-- Rounding a mantissa with 52 zeros behind it is exact. -/
theorem rounded_mul_pow {m : ℕ} {e f : ℤ} (h : Rounded m e) (hm : 0 < m) (hf : -52 ≤ f) :
    Rounded (rounded (m * 2 ^ 52) (e + f)).1 (rounded (m * 2 ^ 52) (e + f)).2 ∧
      ((rounded (m * 2 ^ 52) (e + f)).1 : ℚ) * 2 ^ (rounded (m * 2 ^ 52) (e + f)).2 =
        m * 2 ^ e * (2 ^ 52 * 2 ^ f) := by
  have hlog : (m * 2 ^ 52).log2 = m.log2 + 52 := by
    refine (Nat.log2_eq_iff (by positivity)).mpr ⟨?_, ?_⟩
    · rw [pow_add]
      exact Nat.mul_le_mul_right _ (Nat.log2_self_le hm.ne')
    · rw [show m.log2 + 52 + 1 = m.log2 + 1 + 52 by omega, pow_add]
      exact Nat.mul_lt_mul_of_pos_right Nat.lt_log2_self (by positivity)
  have hle : m.log2 ≤ 52 := Nat.lt_succ_iff.mp ((Nat.log2_lt hm.ne').mpr h.lt)
  have hlow := h.low
  -- no more digits are given up than there are zeros at the end
  have hexcess : excess (m * 2 ^ 52) (e + f) ≤ 52 := by
    rw [excess, hlog]
    omega
  obtain ⟨hshort, hlowest, hfull⟩ := shortened_excess (m := m * 2 ^ 52) (e := e + f)
    (by positivity) (.inl (Nat.le_mul_of_pos_left _ hm))
  obtain ⟨hrounded, hvalue⟩ := shift_rounded hshort hlowest hfull
  refine ⟨hrounded, ?_⟩
  rw [rounded, hvalue]
  generalize excess (m * 2 ^ 52) (e + f) = k at hexcess ⊢
  have hsplit : m * 2 ^ 52 = m * 2 ^ (52 - k) * 2 ^ k := by
    rw [Nat.mul_assoc, ← pow_add, Nat.sub_add_cancel hexcess]
  have hpow : (2 : ℚ) ^ (52 - k) * 2 ^ k = 2 ^ 52 := by
    rw [← pow_add, Nat.sub_add_cancel hexcess]
  rw [hsplit, shortened_mul_pow, Nat.cast_mul, Nat.cast_pow, Nat.cast_ofNat,
    zpow_add₀ (by norm_num), zpow_add₀ (by norm_num), zpow_natCast, ← hpow]
  ring

/-- The product of a rounded number with a power of two that is not below one is exact. -/
theorem mul_pow_ok {u : UnpackedFloat} {f : ℤ} (hm : 0 < 2 ^ 52) (hu : Unsigned u)
    (ru : IsRounded u) (hfinite : u.isFinite = true) (hf : -52 ≤ f) :
    IsRounded (UnpackedFloat.mul .binary64 u (.finite .positive (2 ^ 52) f hm)) ∧
      (UnpackedFloat.mul .binary64 u (.finite .positive (2 ^ 52) f hm)).isNaN = false ∧
      valueOf (UnpackedFloat.mul .binary64 u (.finite .positive (2 ^ 52) f hm)) =
        valueOf u * (2 ^ 52 * 2 ^ f) := by
  cases hu with
  | notANumber => cases hfinite
  | infinity => cases hfinite
  | zero s => exact ⟨trivial, rfl, by simp [UnpackedFloat.mul, valueOf]⟩
  | finite m e hm' =>
    obtain ⟨hrounded, hvalue⟩ := rounded_mul_pow ru hm' hf
    have hne : (rounded (m * 2 ^ 52) (e + f)).1 ≠ 0 := by
      intro hzero
      rw [hzero, Nat.cast_zero, zero_mul] at hvalue
      have hpos : (0 : ℚ) < m * 2 ^ e * (2 ^ 52 * 2 ^ f) := by positivity
      exact hpos.ne hvalue
    have hmul : UnpackedFloat.mul .binary64 (.finite .positive m e hm')
        (.finite .positive (2 ^ 52) f hm) = .finite .positive (rounded (m * 2 ^ 52) (e + f)).1
          (rounded (m * 2 ^ 52) (e + f)).2 (Nat.pos_of_ne_zero hne) := by
      show roundWithAccuracy .binary64 .positive (m * 2 ^ 52) (e + f) .exact = _
      rw [roundWithAccuracy_exact, dif_neg hne]
    rw [hmul]
    exact ⟨hrounded, rfl, hvalue⟩

theorem unpack_four :
    (4 : Float).toModel.unpack = .finite .positive (2 ^ 52) (-50) (by norm_num) := by rfl

/-- Four times a number, before it is packed. -/
theorem mul_four_ok {x : Float} (hx : 0 ≤ value x) (h : x.isFinite = true) :
    IsRounded (UnpackedFloat.mul .binary64 x.toModel.unpack (4 : Float).toModel.unpack) ∧
      (UnpackedFloat.mul .binary64 x.toModel.unpack (4 : Float).toModel.unpack).isNaN = false ∧
      valueOf (UnpackedFloat.mul .binary64 x.toModel.unpack (4 : Float).toModel.unpack) =
        value x * 4 := by
  rw [unpack_four]
  obtain ⟨hrounded, hnumber, hvalue⟩ := mul_pow_ok (f := -50) (by norm_num)
    (unsigned_iff.mpr hx) (isRounded_unpack x) h (by norm_num)
  refine ⟨hrounded, hnumber, hvalue.trans ?_⟩
  rw [value]
  norm_num

/-- Four times a double that is not negative, if the product is a number. -/
theorem value_mul_four {x : Float} (hx : 0 ≤ value x) (h : (x * 4).isFinite = true) :
    x.isFinite = true ∧ value (x * 4) = value x * 4 := by
  have hfour : (0 : Float) ≤ 4 := by decide
  obtain ⟨hfinite, -, -⟩ := value_mul hx (value_nonneg_of_le hfour) h
  obtain ⟨hrounded, -, hvalue⟩ := mul_four_ok hx hfinite
  obtain ⟨-, hpacked⟩ := isFinite_of_pack (x := x * 4) hrounded rfl h
  exact ⟨hfinite, hpacked.trans hvalue⟩

/-! ## Numbers that are not too large

The limit `2 ^ 61` is a power of two, so no rounding can lead across it. -/

/-- A rounded number below the first power of two that is too large is packed as a number. -/
theorem isFinite_pack {u : UnpackedFloat} (hu : Unsigned u) (ru : IsRounded u)
    (hnumber : u.isNaN = false) (h : valueOf u < 2 ^ 1024) :
    (Float.Model.pack u).unpack.isFinite = true := by
  cases hu with
  | notANumber => cases hnumber
  | infinity => exact absurd h (lt_irrefl _)
  | zero s =>
    rw [unpack_pack_zero]
    rfl
  | finite m e hm =>
    have hhigh : e ≤ 971 := by
      by_contra he
      have hfull : (2 : ℚ) ^ 52 ≤ m := by exact_mod_cast ru.full.resolve_right (by omega)
      have hpow : (2 : ℚ) ^ (972 : ℤ) ≤ 2 ^ e := zpow_le_zpow_right₀ (by norm_num) (by omega)
      have hbig : (2 : ℚ) ^ 1024 = 2 ^ 52 * 2 ^ (972 : ℤ) := by
        rw [← zpow_natCast, ← zpow_natCast, ← zpow_add₀ (by norm_num)]
        rfl
      rw [valueOf, hbig] at h
      exact absurd h (not_lt.mpr (mul_le_mul hfull hpow (by positivity) (by positivity)))
    rw [unpack_pack ⟨ru, hhigh⟩]
    rfl

/-- Four times a number is one, if it is not too large. -/
theorem isFinite_mul_four {x : Float} (hx : 0 ≤ value x) (h : x.isFinite = true)
    (hlt : value x < 2 ^ 61) : (x * 4).isFinite = true := by
  obtain ⟨hrounded, hnumber, hvalue⟩ := mul_four_ok hx h
  have hunsigned := unsigned_iff.mpr (hvalue.symm ▸ mul_nonneg hx (by norm_num) :
    0 ≤ valueOf (UnpackedFloat.mul .binary64 x.toModel.unpack (4 : Float).toModel.unpack))
  refine isFinite_pack hunsigned hrounded hnumber ?_
  rw [hvalue]
  calc value x * 4 < 2 ^ 63 := by linarith
    _ ≤ 2 ^ 1024 := pow_le_pow_right₀ (by norm_num) (by norm_num)

theorem le_of_lt {x y : Float} (h : x < y) : x ≤ y := by
  rw [lt_iff_compare] at h
  rw [le_iff_compare, h]
  rfl

theorem isNaN_of_isFinite {x : Float} (h : x.isFinite = true) : x.isNaN = false := by
  have hfinite : x.toModel.unpack.isFinite = true := h
  show x.toModel.unpack.isNaN = false
  generalize x.toModel.unpack = u at hfinite
  cases u with
  | notANumber => cases hfinite
  | _ => rfl

/-- The whole part of four times a double is below a bound if four times its value is. -/
theorem truncate_mul_four_lt_iff {x : Float} (hx : 0 ≤ value x) {n : ℤ}
    (h : truncate (x * 4) = .ok n) (bound : ℕ) : n < bound ↔ 4 * value x < bound := by
  have hfour : (0 : Float) ≤ 4 := by decide
  obtain ⟨hfinite, hfloor⟩ := truncate_ok (value_mul_nonneg hx (value_nonneg_of_le hfour)) h
  rw [hfloor, (value_mul_four hx hfinite).2, Int.floor_lt, mul_comm]
  push_cast
  rfl

/-- Four times a double has a whole part that is not too large if and only if the double itself is
not. -/
theorem truncate_mul_four_iff {x : Float} (hx : 0 ≤ value x) :
    (∃ n, truncate (x * 4) = .ok n ∧ n < 2 ^ 63) ↔ x < 2305843009213693952 := by
  have hbound : value 2305843009213693952 = 2 ^ 61 := by
    have h : Double.ofFloat 2305843009213693952 = .finite ⟨false, 2 ^ 52, 9⟩ := rfl
    rw [value_of_ofFloat h]
    norm_num
  have hbound' : (2305843009213693952 : Float).isFinite = true := rfl
  constructor
  · rintro ⟨n, hn, hlt⟩
    have hfour : (0 : Float) ≤ 4 := by decide
    obtain ⟨hfinite, -⟩ := truncate_ok (value_mul_nonneg hx (value_nonneg_of_le hfour)) hn
    have hvalue := (truncate_mul_four_lt_iff hx hn (2 ^ 63)).mp (by exact_mod_cast hlt)
    rw [lt_iff (isNaN_of_isFinite (value_mul_four hx hfinite).1) (isNaN_of_isFinite hbound'),
      hbound]
    push_cast at hvalue
    linarith
  · intro h
    have hfinite := isFinite_of_le hx (le_of_lt h) hbound'
    rw [lt_iff (isNaN_of_isFinite hfinite) (isNaN_of_isFinite hbound'), hbound] at h
    have hmul := isFinite_mul_four hx hfinite h
    obtain ⟨n, hn⟩ := truncate_ok_iff.mpr hmul
    refine ⟨n, hn, ?_⟩
    have hlt := (truncate_mul_four_lt_iff hx hn (2 ^ 63)).mpr (by push_cast; linarith)
    exact_mod_cast hlt

end TextScore.Number
