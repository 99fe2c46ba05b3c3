import TextScore.Proofs.Number.Value

/-!
# Rounding

A mantissa that is too long is cut down to 53 digits and rounded; then it is packed into a double.
How much is lost in this is the content of this module, and all that is known of the errors of sums
and products comes from here.

Rounding is not done in one step.  The digits that are given up are shifted out, and of them two
bits are kept: the first one, and whether there is a one among the others.  From these the mantissa
is rounded to the nearer neighbour, and to the even one if both are as near.  By this the mantissa
may grow by one digit, and it is shifted again.  The exponent is not looked at until the double is
packed; there a number becomes an infinity if its exponent is too high.  Below the lowest exponent,
fewer than 53 digits are kept, and the error is no small part of the number any more, but a part of
the lowest place.

So the lemmas come in the same order: what is packed and unpacked is the same, what is shifted out
is at most half of the last place, and the last place is at most one part in `2 ^ 52` of the number,
or the lowest place.

## What is here

* `unpack_pack` — a number in the range of doubles is packed without loss.
* `unpack_pack_of_isFinite` — nothing is lost in packing, but what becomes an infinity.
* `shortened_error` — rounding goes to the nearer neighbour.
* `excess_ok` — the mantissa is of the right length afterwards, or one digit longer.
* `rounded_ok` — so rounding is off by at most half of the last place.
* `roundWithAccuracy_ok`, `round_ok` — the same for results of operations.
-/

set_option autoImplicit false

namespace TextScore.Number

open Float.Model Float.Model.UnpackedFloat

/-! ## Packing

The exponent in the bits is the exponent of the last place, plus 1075; zero is kept for mantissas
that are shorter than 53 digits, and the highest for infinities. -/

theorem toNat_sign (s : Sign) (e : BitVec 11) (m : BitVec 52) :
    (@unpackSign .binary64 (packComponents .binary64 s e m)).toNat = s.toBitVec.toNat := by
  have hlow : e.toNat * 2 ^ 52 + m.toNat < 2 ^ 63 := by
    have := e.isLt
    have := m.isLt
    omega
  have hpacked : (packComponents .binary64 s e m).toNat =
      s.toBitVec.toNat * 2 ^ 63 + (e.toNat * 2 ^ 52 + m.toNat) := by
    rw [packComponents, BitVec.toNat_append, BitVec.toNat_append,
      ← Nat.shiftLeft_add_eq_or_of_lt e.isLt, ← Nat.shiftLeft_add_eq_or_of_lt m.isLt]
    simp only [Nat.shiftLeft_eq]
    ring
  have hs := s.toBitVec.isLt
  simp only [unpackSign, BitVec.toNat_cast, BitVec.extractLsb_toNat, hpacked,
    Nat.shiftRight_eq_div_pow]
  omega

@[simp]
theorem unpackSign_packComponents (s : Sign) (e : BitVec 11) (m : BitVec 52) :
    Sign.ofBitVec (@unpackSign .binary64 (packComponents .binary64 s e m)) = s := by
  rw [BitVec.eq_of_toNat_eq (toNat_sign s e m)]
  cases s <;> rfl

theorem unpack_pack_eq (u : UnpackedFloat) :
    (Float.Model.pack u).unpack = unpack .binary64 (UnpackedFloat.pack .binary64 u) := rfl

theorem finite_congr {s : Sign} {m m' : ℕ} {e e' : ℤ} {hm : 0 < m} {hm' : 0 < m'} (h : m = m')
    (h' : e = e') : UnpackedFloat.finite s m e hm = .finite s m' e' hm' := by
  subst h h'
  rfl

theorem log2_eq_of_full {m : ℕ} (hlt : m < 2 ^ 53) (hfull : 2 ^ 52 ≤ m) : m.log2 = 52 :=
  (Nat.log2_eq_iff (by omega)).mpr ⟨hfull, hlt⟩

theorem log2_lt_of_lt {m : ℕ} (hm : 0 < m) (hlt : m < 2 ^ 52) : m.log2 < 52 :=
  (Nat.log2_lt (by omega)).mpr hlt

theorem ofNat_ne {w k : ℕ} {b : BitVec w} (h : k % 2 ^ w ≠ b.toNat) : BitVec.ofNat w k ≠ b := by
  rintro rfl
  exact h (BitVec.toNat_ofNat ..).symm

/-- The exponent of a number is not that of an infinity. -/
theorem ofNat_ne_full {k : ℕ} (hk : k < 2047) : BitVec.ofNat 11 k ≠ -1#11 := by
  refine ofNat_ne ?_
  show k % 2 ^ 11 ≠ 2047
  omega

/-- A mantissa of 53 digits is packed without its first one. -/
theorem unpack_normal {m k : ℕ} (hlt : m < 2 ^ 53) (hfull : 2 ^ 52 ≤ m) (hk : 0 < k)
    (hk' : k < 2047) (s : Sign) (hm : 0 < m) :
    unpack .binary64 (packComponents .binary64 s (BitVec.ofNat 11 k) (BitVec.ofNat 52 m)) =
      .finite s m (k - 1075) hm := by
  have hlow : BitVec.ofNat 11 k ≠ 0#11 := by
    refine ofNat_ne ?_
    show k % 2 ^ 11 ≠ 0
    omega
  rw [UnpackedFloat.unpack]
  simp only [unpackMantissa_packComponents, unpackExponent_packComponents,
    unpackSign_packComponents]
  rw [if_neg (ofNat_ne_full hk'), if_neg hlow]
  refine finite_congr ?_ ?_
  · rw [toNat_append_one, BitVec.toNat_ofNat]
    omega
  · show ((BitVec.ofNat 11 k).toNat : ℤ) - 1075 = k - 1075
    rw [BitVec.toNat_ofNat]
    omega

/-- A shorter mantissa is packed as it is. -/
theorem unpack_subnormal {m : ℕ} (hlt : m < 2 ^ 52) (s : Sign) (hm : 0 < m) :
    unpack .binary64 (packComponents .binary64 s 0#11 (BitVec.ofNat 52 m)) =
      .finite s m (-1074) hm := by
  have hne : BitVec.ofNat 52 m ≠ 0#52 := by
    refine ofNat_ne ?_
    show m % 2 ^ 52 ≠ 0
    omega
  rw [UnpackedFloat.unpack]
  simp only [unpackMantissa_packComponents, unpackExponent_packComponents,
    unpackSign_packComponents]
  rw [if_neg (by decide), if_pos trivial, dif_neg hne]
  refine finite_congr ?_ ?_
  · rw [BitVec.toNat_ofNat]
    omega
  · rfl

theorem pack_finite (s : Sign) (m : ℕ) (e : ℤ) (hm : 0 < m) :
    UnpackedFloat.pack .binary64 (.finite s m e hm) =
      if 2047 ≤ (e + 1075).toNat then packedInfinity .binary64 s
      else if m.log2 = 52 then
        packComponents .binary64 s (BitVec.ofNat 11 (e + 1075).toNat) (BitVec.ofNat 52 m)
      else packComponents .binary64 s 0#11 (BitVec.ofNat 52 m) := by
  have hbias : (Format.binary64.exponentBias : ℤ) = 1023 := rfl
  have hsum : e + 1023 + (52 : ℕ) = e + 1075 := by omega
  rw [UnpackedFloat.pack, hbias]
  dsimp only
  rw [hsum]
  refine if_congr ?_ rfl (if_congr ?_ rfl rfl)
  · omega
  · show m.log2 + 1 = 53 ↔ m.log2 = 52
    omega

/-- A number in the range of doubles is packed without loss. -/
theorem unpack_pack {m : ℕ} {e : ℤ} (h : Canonical m e) (s : Sign) (hm : 0 < m) :
    (Float.Model.pack (.finite s m e hm)).unpack = .finite s m e hm := by
  obtain ⟨⟨hlt, hlow, hfull⟩, hhigh⟩ := h
  rw [unpack_pack_eq, pack_finite, if_neg (by omega)]
  by_cases h : 2 ^ 52 ≤ m
  · rw [if_pos (log2_eq_of_full hlt h), unpack_normal hlt h (by omega) (by omega) s hm]
    exact finite_congr rfl (by omega)
  · obtain rfl := hfull.resolve_left h
    rw [if_neg (log2_lt_of_lt hm (by omega)).ne, unpack_subnormal (by omega) s hm]

/-- The mantissa is as long as rounding makes it, if there is one. -/
def IsRounded : UnpackedFloat → Prop
  | .finite _ m e _ => Rounded m e
  | _ => True

theorem isRounded_unpack (x : Float) : IsRounded x.toModel.unpack := by
  cases h : x.toModel.unpack with
  | finite s m e hm => exact (canonical_of_unpack h).toRounded
  | _ => trivial

theorem unpack_pack_infinite {m : ℕ} {e : ℤ} (h : 971 < e) (s : Sign) (hm : 0 < m) :
    (Float.Model.pack (.finite s m e hm)).unpack = .infinity s := by
  rw [unpack_pack_eq, pack_finite, if_pos (by omega), packedInfinity, UnpackedFloat.unpack]
  simp

theorem unpack_pack_infinity (s : Sign) :
    (Float.Model.pack (.infinity s)).unpack = .infinity s := by
  rw [unpack_pack_eq, UnpackedFloat.pack, packedInfinity, UnpackedFloat.unpack]
  simp

theorem unpack_pack_zero (s : Sign) : (Float.Model.pack (.zero s)).unpack = .zero s := by
  rw [unpack_pack_eq, UnpackedFloat.pack, packedZero, UnpackedFloat.unpack]
  simp

theorem unpack_pack_notANumber : (Float.Model.pack .notANumber).unpack = .notANumber := by
  rw [unpack_pack_eq, UnpackedFloat.pack, packedNaN, UnpackedFloat.unpack]
  simp

/-- What is packed to a number is packed without loss. -/
theorem unpack_pack_of_isFinite {u : UnpackedFloat} (hu : IsRounded u)
    (h : (Float.Model.pack u).unpack.isFinite = true) : (Float.Model.pack u).unpack = u := by
  cases u with
  | notANumber => exact unpack_pack_notANumber
  | infinity s => exact unpack_pack_infinity s
  | zero s => exact unpack_pack_zero s
  | finite s m e hm =>
    by_cases he : e ≤ 971
    · exact unpack_pack ⟨hu, he⟩ s hm
    · rw [unpack_pack_infinite (by omega) s hm] at h
      cases h

/-! ## Rounding

`shortened m k` is the mantissa `m` without its last `k` digits, rounded; `excess m e` is how many
digits `m` has too many at the exponent `e`. -/

theorem targetExponent_eq (m : ℕ) (e : ℤ) :
    Format.binary64.targetExponent (totalExponent m e) = max (m.log2 + 1 + e - 53) (-1074) := rfl

/-- Shifting halves the mantissa, toward zero. -/
theorem mantissa_shiftRight (x : ExtendedMantissa) (k : ℕ) :
    (x >>> k).mantissa = x.mantissa / 2 ^ k := by
  show (k.repeat ExtendedMantissa.shiftRightOne x).mantissa = _
  induction k with
  | zero => rw [Nat.repeat, pow_zero, Nat.div_one]
  | succ k ih =>
    rw [Nat.repeat, ExtendedMantissa.shiftRightOne, ih, pow_succ, Nat.div_div_eq_div_mul]

/-- Rounding adds at most one. -/
theorem roundedMantissa_bounds (x : ExtendedMantissa) :
    x.mantissa ≤ x.roundedMantissa ∧ x.roundedMantissa ≤ x.mantissa + 1 := by
  rw [ExtendedMantissa.roundedMantissa]
  rcases x.accuracy with _ | _ | _ | _
  all_goals
    simp only [Accuracy.roundToNearestEven]
    omega

theorem shiftToExponent_fst (m : ℕ) (e t : ℤ) :
    (shiftToExponent m e .exact t).1 = ExtendedMantissa.mk m false false >>> (t - e).toNat := rfl

theorem shiftToExponent_snd (m : ℕ) (e t : ℤ) :
    (shiftToExponent m e .exact t).2 = e + (t - e).toNat := rfl

/-- A mantissa that is one too long is shifted once; any other one stays. -/
theorem shift_rounded {m : ℕ} {e : ℤ} (hle : m ≤ 2 ^ 53) (hlow : -1074 ≤ e)
    (hfull : 2 ^ 52 ≤ m ∨ e = -1074) :
    let p := shiftToTargetExponent .binary64 m e .exact
    Rounded p.1.mantissa p.2 ∧ (p.1.mantissa : ℚ) * 2 ^ p.2 = m * 2 ^ e := by
  dsimp only
  rw [shiftToTargetExponent, targetExponent_eq, shiftToExponent_fst, mantissa_shiftRight,
    shiftToExponent_snd]
  -- only a mantissa of exactly `2 ^ 53` has one digit too many
  rcases hle.lt_or_eq with hlt | rfl
  · have hlog : m.log2 ≤ 52 := by
      rcases m.eq_zero_or_pos with rfl | hm
      · simp
      · exact Nat.lt_succ_iff.mp ((Nat.log2_lt hm.ne').mpr hlt)
    have hk : (max ((m.log2 : ℤ) + 1 + e - 53) (-1074) - e).toNat = 0 := by omega
    rw [hk]
    simp only [pow_zero, Nat.div_one, Nat.cast_zero, add_zero]
    exact ⟨⟨hlt, hlow, hfull⟩, trivial⟩
  · have hlog : (2 ^ 53).log2 = 53 := Nat.log2_two_pow
    have hk : (max (((2 ^ 53).log2 : ℤ) + 1 + e - 53) (-1074) - e).toNat = 1 := by
      rw [hlog]
      omega
    rw [hk]
    refine ⟨⟨by norm_num, by omega, .inl (by norm_num)⟩, ?_⟩
    rw [Nat.cast_one, zpow_add₀ (by norm_num)]
    norm_num
    ring

/-- A mantissa without its last `k` digits, rounded. -/
def shortened (m k : ℕ) : ℕ := (ExtendedMantissa.mk m false false >>> k).roundedMantissa

theorem shortened_zero (m : ℕ) : shortened m 0 = m := rfl

theorem shortened_bounds (m k : ℕ) :
    m / 2 ^ k ≤ shortened m k ∧ shortened m k ≤ m / 2 ^ k + 1 := by
  have h := roundedMantissa_bounds (ExtendedMantissa.mk m false false >>> k)
  rwa [mantissa_shiftRight] at h

/-- Of the digits that are given up, the first one is kept apart, and of the others only whether one
of them is not zero. -/
theorem shiftRight_succ (m k : ℕ) : ExtendedMantissa.mk m false false >>> (k + 1) =
    ⟨m / 2 ^ (k + 1), m / 2 ^ k % 2 != 0, m % 2 ^ k != 0⟩ := by
  show (k + 1).repeat ExtendedMantissa.shiftRightOne _ = _
  induction k with
  | zero => simp [Nat.repeat, ExtendedMantissa.shiftRightOne, Nat.mod_one]
  | succ k ih =>
    have hsticky : (m / 2 ^ k % 2 != 0 || m % 2 ^ k != 0) = (m % 2 ^ (k + 1) != 0) := by
      rw [Bool.eq_iff_iff, Bool.or_eq_true, bne_iff_ne, bne_iff_ne, bne_iff_ne, Nat.mod_pow_succ]
      rcases Nat.mod_two_eq_zero_or_one (m / 2 ^ k) with h | h
      · simp [h]
      · simp [h]
    rw [Nat.repeat, ih, ExtendedMantissa.shiftRightOne, hsticky, Nat.div_div_eq_div_mul,
      ← pow_succ]

/-- A mantissa with digits behind it goes to the nearer one of its neighbours, and to an even one if
both are as near. -/
theorem roundedMantissa_near {q bit low unit : ℕ} (hbit : bit < 2) (hlow : low < unit) :
    let r := (ExtendedMantissa.mk q (bit != 0) (low != 0)).roundedMantissa
    r * (2 * unit) ≤ q * (2 * unit) + (low + unit * bit) + unit ∧
      q * (2 * unit) + (low + unit * bit) ≤ r * (2 * unit) + unit := by
  have hnext : (q + 1) * (2 * unit) = q * (2 * unit) + 2 * unit := Nat.add_one_mul q _
  obtain rfl | rfl : bit = 0 ∨ bit = 1 := by omega
  · -- less than half a unit is given up
    have hr : (ExtendedMantissa.mk q (0 != 0) (low != 0)).roundedMantissa = q := by
      cases low <;> rfl
    rw [hr]
    omega
  · rcases Nat.eq_zero_or_pos low with rfl | hpos
    · -- half a unit is given up
      have hr : (ExtendedMantissa.mk q (1 != 0) (0 != 0)).roundedMantissa = q + q % 2 := rfl
      rw [hr]
      rcases Nat.mod_two_eq_zero_or_one q with h | h
      · rw [h, Nat.add_zero]
        omega
      · rw [h]
        omega
    · -- more than half a unit is given up
      obtain ⟨low, rfl⟩ := Nat.exists_eq_succ_of_ne_zero hpos.ne'
      have hr : (ExtendedMantissa.mk q (1 != 0) (low.succ != 0)).roundedMantissa = q + 1 := rfl
      rw [hr]
      omega

/-- A mantissa rounded to a multiple of `2 ^ k` is off by at most half of that. -/
theorem shortened_error (m k : ℕ) : |(shortened m k : ℚ) * 2 ^ k - m| ≤ 2 ^ k / 2 := by
  cases k with
  | zero =>
    rw [shortened_zero, pow_zero, mul_one, sub_self, abs_zero]
    norm_num
  | succ k =>
    have hsplit : m = m / 2 ^ (k + 1) * (2 * 2 ^ k) + (m % 2 ^ k + 2 ^ k * (m / 2 ^ k % 2)) := by
      rw [← Nat.mod_pow_succ, ← pow_succ', Nat.div_add_mod']
    obtain ⟨hle, hge⟩ := roundedMantissa_near (q := m / 2 ^ (k + 1))
      (Nat.mod_lt (m / 2 ^ k) (by decide)) (Nat.mod_lt m (by positivity : 0 < 2 ^ k))
    rw [← hsplit, ← shiftRight_succ] at hle hge
    have hle' : (shortened m (k + 1) : ℚ) * (2 * 2 ^ k) ≤ m + 2 ^ k := by exact_mod_cast hle
    have hge' : (m : ℚ) ≤ shortened m (k + 1) * (2 * 2 ^ k) + 2 ^ k := by exact_mod_cast hge
    rw [pow_succ', abs_le]
    constructor <;> linarith

/-- How many digits of a mantissa are given up: those behind the 53rd, and those below the lowest
exponent. -/
def excess (m : ℕ) (e : ℤ) : ℕ := (max ((m.log2 : ℤ) + 1 + e - 53) (-1074) - e).toNat

/-- A mantissa of excess digits is rounded to the right length, or to one digit more, whichever of
its neighbours it becomes. -/
theorem excess_ok {m r : ℕ} {e : ℤ} (hm : 0 < m) (h : 2 ^ 52 ≤ m ∨ e ≤ -1074)
    (hge : m / 2 ^ excess m e ≤ r) (hle : r ≤ m / 2 ^ excess m e + 1) :
    r ≤ 2 ^ 53 ∧ -1074 ≤ e + excess m e ∧ (2 ^ 52 ≤ r ∨ e + excess m e = -1074) := by
  have hk : excess m e = (max ((m.log2 : ℤ) + 1 + e - 53) (-1074) - e).toNat := rfl
  generalize excess m e = k at hk hge hle ⊢
  have hlt : m / 2 ^ k < 2 ^ 53 := by
    rw [Nat.div_lt_iff_lt_mul (by positivity), ← pow_add]
    exact Nat.lt_log2_self.trans_le (Nat.pow_le_pow_right (by norm_num) (by omega))
  refine ⟨by omega, by omega, ?_⟩
  rcases Nat.eq_zero_or_pos k with rfl | hpos
  · rw [pow_zero, Nat.div_one] at hge
    exact h.imp (fun h ↦ h.trans hge) fun h ↦ by omega
  by_cases hlarge : -1074 ≤ (m.log2 : ℤ) + 1 + e - 53
  · refine .inl (le_trans ?_ hge)
    rw [Nat.le_div_iff_mul_le (by positivity), ← pow_add]
    exact le_trans (Nat.pow_le_pow_right (by norm_num) (by omega)) (Nat.log2_self_le hm.ne')
  · exact .inr (by omega)

theorem shortened_excess {m : ℕ} {e : ℤ} (hm : 0 < m) (h : 2 ^ 52 ≤ m ∨ e ≤ -1074) :
    shortened m (excess m e) ≤ 2 ^ 53 ∧ -1074 ≤ e + excess m e ∧
      (2 ^ 52 ≤ shortened m (excess m e) ∨ e + excess m e = -1074) :=
  excess_ok hm h (shortened_bounds m _).1 (shortened_bounds m _).2

/-- The lowest place of doubles. -/
def lowest : ℚ := 2 ^ (-1074 : ℤ)

/-- What is lost below the lowest place; nothing, if there is nothing below it. -/
def slack (e : ℤ) : ℚ := if e < -1074 then lowest else 0

theorem lowest_nonneg : 0 ≤ lowest := by
  rw [lowest]
  positivity

theorem slack_nonneg (e : ℤ) : 0 ≤ slack e := by
  rw [slack]
  split_ifs
  · exact lowest_nonneg
  · exact le_rfl

theorem slack_le (e : ℤ) : slack e ≤ lowest := by
  rw [slack]
  split_ifs
  · exact le_rfl
  · exact lowest_nonneg

/-- The last place that is kept is small against the number, or the lowest one. -/
theorem unit_le {m : ℕ} {e : ℤ} (hm : 0 < m) (h : 0 < excess m e) :
    (2 : ℚ) ^ excess m e * 2 ^ e ≤ m * 2 ^ e / 2 ^ 52 + slack e := by
  have hk : excess m e = (max ((m.log2 : ℤ) + 1 + e - 53) (-1074) - e).toNat := rfl
  generalize excess m e = k at hk h ⊢
  by_cases hlarge : -1074 ≤ (m.log2 : ℤ) + 1 + e - 53
  · have hshort : (2 : ℚ) ^ k * 2 ^ 52 ≤ m := by
      rw [← pow_add]
      exact_mod_cast le_trans (Nat.pow_le_pow_right (by norm_num) (by omega))
        (Nat.log2_self_le hm.ne')
    refine le_trans ?_ (le_add_of_nonneg_right (slack_nonneg e))
    rw [le_div_iff₀ (by positivity)]
    calc (2 : ℚ) ^ k * 2 ^ e * 2 ^ 52 = (2 : ℚ) ^ k * 2 ^ 52 * 2 ^ e := by ring
      _ ≤ (m : ℚ) * 2 ^ e := mul_le_mul_of_nonneg_right hshort (by positivity)
  · have hlowest : (2 : ℚ) ^ k * 2 ^ e = lowest := by
      rw [← zpow_natCast, ← zpow_add₀ (by norm_num), lowest]
      congr 1
      omega
    rw [hlowest, slack, if_pos (by omega)]
    exact le_add_of_nonneg_left (by positivity)

/-- A mantissa and an exponent, rounded: shortened, and shifted once more if the mantissa has become
too long. -/
def rounded (m : ℕ) (e : ℤ) : ℕ × ℤ :=
  let p := shiftToTargetExponent .binary64 (shortened m (excess m e)) (e + excess m e) .exact
  (p.1.mantissa, p.2)

/-- What rounding does: the result has a mantissa of the right length, and is off by at most half of
the last place. -/
theorem rounded_ok {m : ℕ} {e : ℤ} (hm : 0 < m) (h : 2 ^ 52 ≤ m ∨ e ≤ -1074) :
    Rounded (rounded m e).1 (rounded m e).2 ∧
      |((rounded m e).1 : ℚ) * 2 ^ (rounded m e).2 - m * 2 ^ e| ≤
        m * 2 ^ e / 2 ^ 53 + slack e := by
  obtain ⟨hle, hlow, hfull⟩ := shortened_excess hm h
  obtain ⟨hrounded, hvalue⟩ := shift_rounded hle hlow hfull
  refine ⟨hrounded, ?_⟩
  have hpow : (0 : ℚ) < 2 ^ e := by positivity
  have hfactor : (shortened m (excess m e) : ℚ) * 2 ^ (e + excess m e) - m * 2 ^ e =
      (shortened m (excess m e) * 2 ^ excess m e - m) * 2 ^ e := by
    rw [zpow_add₀ (by norm_num), zpow_natCast]
    ring
  rw [rounded, hvalue, hfactor, abs_mul, abs_of_pos hpow]
  rcases Nat.eq_zero_or_pos (excess m e) with hzero | hpos
  · rw [hzero, shortened_zero, pow_zero, mul_one, sub_self, abs_zero, zero_mul]
    exact add_nonneg (by positivity) (slack_nonneg e)
  · have hunit := unit_le hm hpos
    have hslack := slack_nonneg e
    refine (mul_le_mul_of_nonneg_right (shortened_error m _) hpow.le).trans ?_
    linarith

theorem roundWithAccuracy_exact (s : Sign) (m : ℕ) (e : ℤ) :
    roundWithAccuracy .binary64 s m e .exact =
      if h : (rounded m e).1 = 0 then .zero s
      else .finite s (rounded m e).1 (rounded m e).2 (Nat.pos_of_ne_zero h) := rfl

/-- Rounding is off by at most half of the last place. -/
theorem roundWithAccuracy_ok {m : ℕ} {e : ℤ} (hm : 0 < m) (h : 2 ^ 52 ≤ m ∨ e ≤ -1074) :
    IsRounded (roundWithAccuracy .binary64 .positive m e .exact) ∧
      |valueOf (roundWithAccuracy .binary64 .positive m e .exact) - m * 2 ^ e| ≤
        m * 2 ^ e / 2 ^ 53 + slack e := by
  obtain ⟨hrounded, herror⟩ := rounded_ok hm h
  rw [roundWithAccuracy_exact]
  by_cases hzero : (rounded m e).1 = 0
  · rw [hzero, Nat.cast_zero, zero_mul] at herror
    rw [dif_pos hzero]
    exact ⟨trivial, herror⟩
  · rw [dif_neg hzero]
    exact ⟨hrounded, herror⟩

theorem round_eq (n : ℕ) (e : ℤ) :
    round .binary64 .positive n e =
      let k := (e - max ((n.log2 : ℤ) + 1 + e - 53) (-1074)).toNat
      roundWithAccuracy .binary64 .positive (n <<< k) (e - k) .exact := rfl

/-- A natural number times a power of two, rounded; there is nothing below the lowest place. -/
theorem round_ok {n : ℕ} {e : ℤ} (hn : 0 < n) (he : -1074 ≤ e) :
    IsRounded (round .binary64 .positive n e) ∧
      |valueOf (round .binary64 .positive n e) - n * 2 ^ e| ≤ n * 2 ^ e / 2 ^ 53 := by
  rw [round_eq]
  generalize hk : (e - max ((n.log2 : ℤ) + 1 + e - 53) (-1074)).toNat = k
  dsimp only
  have hpos : 0 < n <<< k := by
    rw [Nat.shiftLeft_eq]
    positivity
  have hlong : 2 ^ 52 ≤ n <<< k ∨ e - k ≤ -1074 := by
    by_cases hlow : (n.log2 : ℤ) + 1 + e - 53 ≤ -1074
    · exact .inr (by omega)
    · refine .inl ?_
      rw [Nat.shiftLeft_eq]
      calc 2 ^ 52 ≤ 2 ^ (n.log2 + k) := Nat.pow_le_pow_right (by norm_num) (by omega)
        _ = 2 ^ n.log2 * 2 ^ k := pow_add ..
        _ ≤ n * 2 ^ k := Nat.mul_le_mul_right _ (Nat.log2_self_le hn.ne')
  have hvalue : ((n <<< k : ℕ) : ℚ) * 2 ^ (e - k) = n * 2 ^ e := by
    rw [Nat.shiftLeft_eq, Nat.cast_mul, zpow_sub₀ (by norm_num), Nat.cast_pow, zpow_natCast,
      Nat.cast_ofNat]
    field_simp
  have hslack : slack (e - k) = 0 := if_neg (by omega)
  have := roundWithAccuracy_ok hpos hlong
  rwa [hvalue, hslack, add_zero] at this

end TextScore.Number
