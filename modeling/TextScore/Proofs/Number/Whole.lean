import TextScore.Proofs.Number.Scaling
import TextScore.Proofs.Outcome

/-!
# Doubles of whole numbers

A whole number above zero is a double above zero, so that a division by it never fails; and a whole
number has a double unless it rounds to `2 ^ 1024` or more.

Numbers in a score are whole numbers of any length up to what can be read: measures, and both
numbers of a time signature.  They become doubles when a block is played, and that is where a score
with too large a number fails.  The limit is not `2 ^ 1024` itself.  The numbers that round to it
start half a place below it, at `(2 ^ 54 - 1) * 2 ^ 970`, and the program compares with that number;
here it is shown to be the right one.

## What is here

* `pos_pack`, `pos_of_error` — packing and rounding do not take a number down to zero.
* `value_ofInt_pos` — the double of a whole number above zero.
* `divide_ok` — only a number at or below zero cannot be divided by.
* `le_nearest_iff` — the numbers that round beyond the largest double.
* `ends_ofInt` — a positive number either has a positive double or rounds beyond all doubles.
-/

set_option autoImplicit false

namespace TextScore.Number

open Float.Model Float.Model.UnpackedFloat

/-! ## Rounding -/

/-- Packing does not take a number down to zero. -/
theorem pos_pack {u : UnpackedFloat} (ru : IsRounded u) (h : 0 < valueOf u) :
    0 < valueOf (Float.Model.pack u).unpack := by
  cases unsigned_iff.mpr h.le with
  | notANumber => exact absurd h (lt_irrefl 0)
  | infinity => rwa [unpack_pack_infinity]
  | zero s => exact absurd h (lt_irrefl 0)
  | finite m e hm =>
    by_cases he : e ≤ 971
    · rwa [unpack_pack ⟨ru, he⟩]
    · rw [unpack_pack_infinite (by omega)]
      exact (by positivity : (0 : ℚ) < 2 ^ 1024)

/-- What is off by a small part of a number above zero is above zero. -/
theorem pos_of_error {a b : ℚ} (hb : 0 < b) (h : |a - b| ≤ b / 2 ^ 53) : 0 < a := by
  have hpart : b / 2 ^ 53 < b := div_lt_self hb (by norm_num)
  have := (abs_le.mp h).1
  linarith

/-- The product of numbers above zero, if its mantissa is not short. -/
theorem pos_pack_mul {m m' : ℕ} {e e' : ℤ} {hm : 0 < m} {hm' : 0 < m'} (h : 2 ^ 52 ≤ m * m')
    (he : -1074 ≤ e + e') :
    0 < valueOf (Float.Model.pack (UnpackedFloat.mul .binary64 (.finite .positive m e hm)
      (.finite .positive m' e' hm'))).unpack := by
  obtain ⟨hrounded, herror⟩ := roundWithAccuracy_ok (Nat.mul_pos hm hm') (.inl h) (e := e + e')
  rw [slack, if_neg (by omega), add_zero] at herror
  have hpos : (0 : ℚ) < (m * m' : ℕ) * 2 ^ (e + e') :=
    mul_pos (Nat.cast_pos.mpr (Nat.mul_pos hm hm')) (by positivity)
  exact pos_pack hrounded (pos_of_error hpos herror)

/-- A number times one. -/
theorem pos_mul_one {u : UnpackedFloat} (hm : 0 < 2 ^ 52) (ru : IsRounded u)
    (h : 0 < valueOf u) :
    IsRounded (UnpackedFloat.mul .binary64 u (.finite .positive (2 ^ 52) (-52) hm)) ∧
      0 < valueOf (UnpackedFloat.mul .binary64 u (.finite .positive (2 ^ 52) (-52) hm)) := by
  have hbig : (0 : ℚ) < 2 ^ 1024 := by positivity
  have hu := unsigned_iff.mpr h.le
  by_cases hfinite : u.isFinite = true
  · obtain ⟨hrounded, -, hvalue⟩ := mul_pow_ok hm hu ru hfinite (le_refl (-52))
    refine ⟨hrounded, ?_⟩
    rw [hvalue]
    positivity
  · cases hu with
    | notANumber => exact absurd h (lt_irrefl 0)
    | infinity => exact ⟨trivial, hbig⟩
    | zero s => exact absurd rfl hfinite
    | finite m e hm' => exact absurd rfl hfinite

/-! ## Whole numbers

A natural number of any size is put together from pieces of 64 bits at most; none of the products
and sums on the way can come out as zero. -/

theorem value_toFloat_pos {n : ℕ} (hn : 0 < n) (hlt : n < 2 ^ 53) :
    0 < value n.toUInt64.toFloat := by
  have hnat : n.toUInt64.toNat = n := UInt64.toNat_ofNat_of_lt' (hlt.trans (by norm_num))
  have h : n.toUInt64.toFloat.toModel = Float.Model.pack
      (UnpackedFloat.normalize .binary64 n.toUInt64.toNat 0 .positive) := rfl
  obtain ⟨hrounded, herror⟩ := round_ok hn (by norm_num : (-1074 : ℤ) ≤ 0)
  rw [value, h, hnat, normalize_natCast hn]
  exact pos_pack hrounded (pos_of_error (by positivity) herror)

theorem value_ofNat_pos {n : ℕ} (hn : 0 < n) : 0 < value (Float.ofNat n) := by
  show 0 < value (Float.ofScientific n false 0)
  rw [Float.ofScientific]
  -- small numbers are multiplied with one, others are put together from a mantissa
  by_cases h : n < 2 ^ 53 ∧ 0 ≤ 22
  · rw [dif_pos h, if_neg Bool.false_ne_true]
    have hone : Float.exactlyRepresentablePowersOfTen[0].toModel.unpack =
        .finite .positive (2 ^ 52) (-52) (by norm_num) := by rfl
    obtain ⟨hrounded, hpos⟩ := pos_mul_one (by norm_num)
      (isRounded_unpack n.toUInt64.toFloat) (value_toFloat_pos hn h.1)
    rw [← hone] at hrounded hpos
    exact pos_pack hrounded hpos
  · rw [dif_neg h, if_neg Bool.false_ne_true]
    show 0 < valueOf (Float.Model.pack (UnpackedFloat.ofScientific .binary64 n 0)).unpack
    rw [UnpackedFloat.ofScientific]
    have hrange : (0 : ℤ) ≤ 2 ^ Format.binary64.exponentBits := by positivity
    split_ifs with hzero hhigh hlow hexponent
    · exact absurd hzero hn.ne'
    · exact absurd hhigh (not_lt.mpr hrange)
    · omega
    · refine pos_pack_mul ?_ (by norm_num [Format.mantissaBits])
      rw [Int.toNat_zero, pow_zero, Nat.mul_one, Nat.shiftLeft_eq]
      show 2 ^ 52 ≤ n * 2 ^ 53
      omega
    · exact absurd le_rfl hexponent

/-- The double of a whole number above zero is above zero. -/
theorem value_ofInt_pos {n : ℤ} {x : Float} (hn : 0 < n) (h : ofInt n = .ok x) : 0 < value x := by
  rw [ofInt] at h
  split_ifs at h
  obtain rfl := Except.ok.inj h
  cases n with
  | ofNat n => exact value_ofNat_pos (Int.natCast_pos.mp hn)
  | negSucc n => exact absurd hn (by omega)

/-! ## Division

A comparison with zero is how the program makes sure that it can divide. -/

theorem not_le_zero_of_pos {x : Float} (h : 0 < value x) : ¬x ≤ 0 := by
  intro hle
  obtain ⟨hx, hzero⟩ := isNaN_of_le hle
  have := (le_iff hx hzero).mp hle
  rw [value_zero] at this
  exact absurd h (not_lt.mpr this)

theorem not_le_zero_of_lt {x : Float} (h : 0 < x) : ¬x ≤ 0 := by
  obtain ⟨hzero, hx⟩ := isNaN_of_le (le_of_lt h)
  refine not_le_zero_of_pos ?_
  rw [← value_zero]
  exact (lt_iff hzero hx).mp h

theorem le_zero_of_beq {x : Float} (h : (x == 0) = true) : x ≤ 0 := by
  have hbeq : (x.toModel.unpack.compare (0 : Float).toModel.unpack == some .eq) = true := h
  rw [le_iff_compare, eq_of_beq hbeq]
  rfl

/-- What is not at or below zero can be divided by. -/
theorem divide_ok {x y : Float} (h : ¬y ≤ 0) : divide x y = .ok (x / y) := by
  rw [divide, if_neg (mt le_zero_of_beq h)]

/-! ## Numbers that are too large

`nearest` is what a number rounds to if there were no highest exponent.  It is compared with the
first power of two that is no double. -/

/-- A natural number rounded to 53 binary digits, however large it is. -/
def nearest (n : ℕ) : ℚ := valueOf (round .binary64 .positive n 0)

theorem nearest_eq {n : ℕ} (hn : 2 ^ 52 ≤ n) :
    nearest n = shortened n (excess n 0) * 2 ^ excess n 0 := by
  have hlog : 52 ≤ n.log2 := (Nat.le_log2 (by omega)).mpr hn
  have hshift : (0 - max ((n.log2 : ℤ) + 1 + 0 - 53) (-1074)).toNat = 0 := by omega
  obtain ⟨hle, hlow, hfull⟩ := shortened_excess (e := 0) (by omega : 0 < n) (.inl hn)
  have hvalue : ((rounded n 0).1 : ℚ) * 2 ^ (rounded n 0).2 = _ :=
    (shift_rounded hle hlow hfull).2
  rw [zero_add, zpow_natCast] at hvalue
  rw [nearest, round_eq, hshift]
  dsimp only
  rw [Nat.shiftLeft_zero, Nat.cast_zero, sub_zero, roundWithAccuracy_exact, ← hvalue]
  split_ifs with hzero
  · rw [hzero, Nat.cast_zero, zero_mul, valueOf]
  · rfl

/-- Where the digits that stay make an odd number, the next one decides. -/
theorem shortened_of_odd {m k : ℕ} (h : m / 2 ^ k / 2 % 2 = 1) :
    shortened m (k + 1) = m / 2 ^ k / 2 + m / 2 ^ k % 2 := by
  have hmantissa := mantissa_shiftRight (ExtendedMantissa.mk m false false) k
  show ((ExtendedMantissa.mk m false false >>> k).shiftRightOne).roundedMantissa = _
  generalize ExtendedMantissa.mk m false false >>> k = x at hmantissa
  rw [← hmantissa] at h ⊢
  rcases x with ⟨q, r, s⟩
  rcases Nat.mod_two_eq_zero_or_one q with hq | hq
  all_goals
    rw [hq, ExtendedMantissa.shiftRightOne]
    cases r <;> cases s <;> simp [ExtendedMantissa.roundedMantissa, ExtendedMantissa.accuracy,
      Accuracy.roundToNearestEven, hq, h]

theorem excess_zero {n : ℕ} (hn : 2 ^ 52 ≤ n) : excess n 0 = n.log2 - 52 := by
  have hlog : 52 ≤ n.log2 := (Nat.le_log2 (by omega)).mpr hn
  have h : excess n 0 = (max ((n.log2 : ℤ) + 1 + 0 - 53) (-1074) - 0).toNat := rfl
  omega

/-- Below `2 ^ 1024`, the digits that stay have a last place of `2 ^ 971`. -/
theorem le_shortened_iff {n : ℕ} (hlow : 2 ^ 53 * 2 ^ 970 ≤ n) (hhigh : n < 2 ^ 54 * 2 ^ 970) :
    2 ^ 53 ≤ shortened n 971 ↔ (2 ^ 54 - 1) * 2 ^ 970 ≤ n := by
  have hpow : (0 : ℕ) < 2 ^ 970 := by positivity
  have hbounds : n / 2 ^ 970 / 2 ≤ shortened n 971 ∧ shortened n 971 ≤ n / 2 ^ 970 / 2 + 1 := by
    have h := shortened_bounds n (970 + 1)
    rwa [pow_succ, ← Nat.div_div_eq_div_mul] at h
  rw [← Nat.le_div_iff_mul_le hpow] at hlow ⊢
  rw [← Nat.div_lt_iff_lt_mul hpow] at hhigh
  by_cases hlast : 2 ^ 54 - 2 ≤ n / 2 ^ 970
  · have hodd : n / 2 ^ 970 / 2 % 2 = 1 := by omega
    rw [shortened_of_odd hodd]
    omega
  · omega

theorem nearest_lt {n : ℕ} (hn : 0 < n) (h : n < 2 ^ 53 * 2 ^ 970) : nearest n < 2 ^ 1024 := by
  obtain ⟨-, herror⟩ := round_ok hn (by norm_num : (-1074 : ℤ) ≤ 0)
  rw [zpow_zero, mul_one] at herror
  have hlt : (n : ℚ) < 2 ^ 53 * 2 ^ 970 := by exact_mod_cast h
  have hle := (abs_le.mp herror).2
  calc nearest n ≤ n + n / 2 ^ 52 := by rw [nearest]; linarith
    _ ≤ n + n := by
      gcongr
      exact div_le_self (Nat.cast_nonneg n) (by norm_num)
    _ < 2 ^ 53 * 2 ^ 970 + 2 ^ 53 * 2 ^ 970 := add_lt_add hlt hlt
    _ = 2 ^ 1024 := by
      rw [← two_mul, ← mul_assoc, ← pow_succ', ← pow_add]

theorem le_nearest {n : ℕ} (hn : n ≠ 0) (hlog : 1024 ≤ n.log2) : 2 ^ 1024 ≤ nearest n := by
  have hlong : 2 ^ 52 ≤ n :=
    (Nat.pow_le_pow_right (by norm_num) (by omega)).trans (Nat.log2_self_le hn)
  have hfull : 2 ^ 52 ≤ n / 2 ^ (n.log2 - 52) := by
    rw [Nat.le_div_iff_mul_le (by positivity), ← pow_add, Nat.add_sub_cancel' (by omega)]
    exact Nat.log2_self_le hn
  rw [nearest_eq hlong, excess_zero hlong]
  calc (2 : ℚ) ^ 1024 ≤ 2 ^ n.log2 := pow_le_pow_right₀ (by norm_num) hlog
    _ = 2 ^ 52 * 2 ^ (n.log2 - 52) := by rw [← pow_add, Nat.add_sub_cancel' (by omega)]
    _ ≤ shortened n (n.log2 - 52) * 2 ^ (n.log2 - 52) := by
      refine mul_le_mul_of_nonneg_right ?_ (by positivity)
      exact_mod_cast hfull.trans (shortened_bounds n _).1

/-- The numbers that round to `2 ^ 1024` or more are those without a double. -/
theorem le_nearest_iff {n : ℕ} (hn : 0 < n) : 2 ^ 1024 ≤ nearest n ↔ doubleBound ≤ n := by
  have hpow : (2 : ℕ) ^ 1024 = 2 ^ 54 * 2 ^ 970 := by rw [← pow_add]
  have hpow' : (2 : ℚ) ^ 1024 = 2 ^ 53 * 2 ^ 971 := by rw [← pow_add]
  have hbound : doubleBound = (2 ^ 54 - 1) * 2 ^ 970 := by
    rw [doubleBound, Nat.pow_eq, Nat.pow_eq, hpow, Nat.sub_mul, Nat.one_mul]
  have hunit : (0 : ℕ) < 2 ^ 970 := by positivity
  rcases lt_or_ge n (2 ^ 53 * 2 ^ 970) with hsmall | hlow
  · exact iff_of_false (not_le.mpr (nearest_lt hn hsmall)) (by omega)
  rcases lt_or_ge n (2 ^ 54 * 2 ^ 970) with hhigh | hlarge
  · have hlong : 2 ^ 52 ≤ n := by omega
    have hlog : n.log2 = 1023 := by
      rw [Nat.log2_eq_iff hn.ne', show 1023 + 1 = 54 + 970 from rfl, pow_add,
        show 1023 = 53 + 970 from rfl, pow_add]
      exact ⟨hlow, hhigh⟩
    rw [nearest_eq hlong, excess_zero hlong, hlog, hpow', hbound, ← le_shortened_iff hlow hhigh,
      mul_le_mul_iff_left₀ (by positivity)]
    exact_mod_cast Iff.rfl
  · have hlog : 1024 ≤ n.log2 := by
      rw [Nat.le_log2 hn.ne', hpow]
      exact hlarge
    exact iff_of_true (le_nearest hn.ne' hlog) (by omega)

/-- The number rounds to a double of `2 ^ 1024` or more, and there is none. -/
def IsBeyond (n : ℤ) : Prop := 2 ^ 1024 ≤ nearest n.natAbs

/-- A positive number has a positive double, unless it rounds beyond all doubles. -/
theorem ends_ofInt {n : ℤ} (hn : 0 < n) :
    Ends (fun x ↦ 0 < value x) (fun f ↦ f = .integerTooLarge ∧ IsBeyond n) (ofInt n) := by
  refine ⟨fun x h ↦ value_ofInt_pos hn h, ?_⟩
  intro f h
  rw [ofInt] at h
  split_ifs at h with hlt
  obtain rfl := Except.error.inj h
  exact ⟨rfl, (le_nearest_iff (by omega)).mpr (not_lt.mp hlt)⟩

end TextScore.Number
