import TextScore.Proofs.Number.Rounding

/-!
# Sums and products of doubles

Of doubles that are not negative, sums, products and quotients are not negative; and the value of a
sum is off by at most one part in `2 ^ 53`, that of a product by no more but for the lowest place.

The first of these is about all doubles, also those that are no number, and it is what the times of
a score need: a timeline goes forward because nothing that is added to a time turns negative.  It is
proved of unpacked doubles, where it is a matter of signs, and carried over by packing.  That a
quotient of doubles that are not negative is not negative needs that zero is not divided by, as
minus zero is not negative here and would turn a quotient to minus infinity.

The second one is about sums and products that are numbers, which then have numbers for their terms
and factors.  A sum of two doubles cannot have digits below the lowest place, so nothing is lost
there; a product can.

## What is here

* `Unsigned` — not below zero.
* `value_add_nonneg`, `value_mul_nonneg`, `value_divide_nonneg` — no operation turns negative.
* `value_mul`, `value_add` — the errors.
* `isFinite_of_le` — between zero and a number there are only numbers.
* `truncate_ok` — the whole part of a double.
-/

set_option autoImplicit false

namespace TextScore.Number

open Float.Model Float.Model.UnpackedFloat

/-! ## Signs

`Unsigned` follows the parts of a double and not its value, so that it can be shown of an operation
case by case.  `unsigned_iff` says that it is the same as a value that is not negative. -/

/-- What is not below zero; what is not a number is not. -/
inductive Unsigned : UnpackedFloat → Prop
  /-- Not a number. -/
  | notANumber : Unsigned .notANumber
  /-- Plus infinity. -/
  | infinity : Unsigned (.infinity .positive)
  /-- Zero, of any sign. -/
  | zero (s : Sign) : Unsigned (.zero s)
  /-- A number above zero. -/
  | finite (m : ℕ) (e : ℤ) (hm : 0 < m) : Unsigned (.finite .positive m e hm)

theorem unsigned_iff {u : UnpackedFloat} : Unsigned u ↔ 0 ≤ valueOf u := by
  have hbig : (0 : ℚ) < 2 ^ 1024 := by positivity
  constructor
  · intro h
    cases h with
    | notANumber => exact le_rfl
    | infinity => exact hbig.le
    | zero s => exact le_rfl
    | finite m e hm => rw [valueOf]; positivity
  · intro h
    cases u with
    | notANumber => exact .notANumber
    | infinity s =>
      cases s with
      | negative => exact absurd h (not_le.mpr (neg_neg_of_pos hbig))
      | positive => exact .infinity
    | zero s => exact .zero s
    | finite s m e hm =>
      cases s with
      | negative =>
        have hpos : (0 : ℚ) < m * 2 ^ e := mul_pos (by exact_mod_cast hm) (by positivity)
        exact absurd h (not_le.mpr (neg_neg_of_pos hpos))
      | positive => exact .finite m e hm

namespace Unsigned

theorem unpack (e : BitVec 11) (m : BitVec 52) :
    Unsigned (UnpackedFloat.unpack .binary64 (packComponents .binary64 .positive e m)) := by
  rw [UnpackedFloat.unpack]
  simp only [unpackMantissa_packComponents, unpackExponent_packComponents,
    unpackSign_packComponents]
  split_ifs
  · exact .infinity
  · exact .notANumber
  · exact .zero _
  · exact .finite _ _ _
  · exact .finite _ _ _

theorem pack {u : UnpackedFloat} (h : Unsigned u) : Unsigned (Float.Model.pack u).unpack := by
  cases h with
  | notANumber => rw [unpack_pack_notANumber]; exact .notANumber
  | infinity => rw [unpack_pack_infinity]; exact .infinity
  | zero s => rw [unpack_pack_zero]; exact .zero s
  | finite m e hm =>
    rw [unpack_pack_eq, UnpackedFloat.pack]
    dsimp only
    split_ifs
    all_goals exact unpack _ _

theorem roundWithAccuracy (m : ℕ) (e : ℤ) (a : Accuracy) :
    Unsigned (UnpackedFloat.roundWithAccuracy .binary64 .positive m e a) := by
  rw [UnpackedFloat.roundWithAccuracy]
  dsimp only
  split_ifs
  · exact .zero _
  · exact .finite _ _ _

theorem normalize {m : ℤ} (hm : 0 ≤ m) (e : ℤ) (s : Sign) :
    Unsigned (UnpackedFloat.normalize .binary64 m e s) := by
  rw [UnpackedFloat.normalize]
  cases h : compare m 0 with
  | lt => exact absurd hm (not_le.mpr (compare_lt_iff_lt.mp h))
  | eq => exact .zero s
  | gt => exact roundWithAccuracy _ _ _

theorem mul {u v : UnpackedFloat} (hu : Unsigned u) (hv : Unsigned v) :
    Unsigned (UnpackedFloat.mul .binary64 u v) := by
  cases hu <;> cases hv
  case finite.finite => exact roundWithAccuracy _ _ _
  all_goals constructor

theorem add {u v : UnpackedFloat} (hu : Unsigned u) (hv : Unsigned v) :
    Unsigned (UnpackedFloat.add .binary64 u v) := by
  cases hu <;> cases hv
  case finite.finite => exact normalize (Int.natCast_nonneg _) _ _
  case zero.zero s s' => cases s <;> cases s' <;> constructor
  all_goals constructor

/-- A number above zero is divided by. -/
theorem div {u v : UnpackedFloat} (hu : Unsigned u) (hv : Unsigned v) (hne : ∀ s, v ≠ .zero s) :
    Unsigned (UnpackedFloat.div .binary64 u v) := by
  cases hv with
  | zero s => exact absurd rfl (hne s)
  | finite m e hm =>
    cases hu
    case finite => exact roundWithAccuracy _ _ _
    all_goals constructor
  | _ => cases hu <;> constructor

end Unsigned

/-- Products do not turn negative. -/
theorem value_mul_nonneg {x y : Float} (hx : 0 ≤ value x) (hy : 0 ≤ value y) :
    0 ≤ value (x * y) :=
  unsigned_iff.mp ((unsigned_iff.mpr hx).mul (unsigned_iff.mpr hy)).pack

/-- Sums do not turn negative. -/
theorem value_add_nonneg {x y : Float} (hx : 0 ≤ value x) (hy : 0 ≤ value y) :
    0 ≤ value (x + y) :=
  unsigned_iff.mp ((unsigned_iff.mpr hx).add (unsigned_iff.mpr hy)).pack

theorem beq_zero {y : Float} {s : Sign} (h : y.toModel.unpack = .zero s) : (y == 0) = true := by
  show UnpackedFloat.beq y.toModel.unpack (0 : Float).toModel.unpack = true
  have hzero : (0 : Float).toModel.unpack = .zero .positive := by rfl
  rw [h, hzero]
  rfl

/-- Quotients do not turn negative. -/
theorem value_divide_nonneg {x y z : Float} (hx : 0 ≤ value x) (hy : 0 ≤ value y)
    (h : divide x y = .ok z) : 0 ≤ value z := by
  rw [divide] at h
  split_ifs at h with hne
  obtain rfl := Except.ok.inj h
  refine unsigned_iff.mp ((unsigned_iff.mpr hx).div (unsigned_iff.mpr hy) ?_).pack
  intro s hs
  exact hne (beq_zero hs)

theorem value_zero : value 0 = 0 := by
  have h : (0 : Float).toModel.unpack = .zero .positive := by rfl
  rw [value, h, valueOf]

theorem value_nonneg_of_le {x : Float} (h : 0 ≤ x) : 0 ≤ value x := by
  obtain ⟨h0, hx⟩ := isNaN_of_le h
  rw [← value_zero]
  exact (le_iff h0 hx).mp h

theorem value_nonneg_of_lt {x : Float} (h : 0 < x) : 0 ≤ value x := by
  refine value_nonneg_of_le ?_
  rw [lt_iff_compare] at h
  rw [le_iff_compare, h]
  rfl

/-- What is not below zero may still be no number, but then its value counts as zero. -/
theorem value_nonneg_of_not_le {x : Float} (h : ¬x ≤ 0) : 0 ≤ value x := by
  cases hx : x.isNaN with
  | false =>
    have hzero : (0 : Float).isNaN = false := rfl
    have hlt := mt (le_iff hx hzero).mpr h
    rw [value_zero, not_le] at hlt
    exact hlt.le
  | true =>
    have hu : x.toModel.unpack.isNaN = true := hx
    rw [value]
    cases hn : x.toModel.unpack with
    | notANumber => exact le_rfl
    | infinity | zero | finite => rw [hn] at hu; cases hu

theorem value_toFloat_nonneg (n : UInt64) : 0 ≤ value n.toFloat := by
  have h : n.toFloat.toModel =
    Float.Model.pack (UnpackedFloat.normalize .binary64 n.toNat 0 .positive) := rfl
  rw [value, h]
  exact unsigned_iff.mp (Unsigned.normalize (Int.natCast_nonneg _) 0 .positive).pack

theorem value_ofNat_nonneg (n : ℕ) : 0 ≤ value (Float.ofNat n) := by
  have hone : (0 : Float) ≤ Float.exactlyRepresentablePowersOfTen[0] := by decide
  show 0 ≤ value (Float.ofScientific n false 0)
  rw [Float.ofScientific]
  by_cases h : n < 2 ^ 53 ∧ 0 ≤ 22
  · rw [dif_pos h, if_neg Bool.false_ne_true]
    exact value_mul_nonneg (value_toFloat_nonneg _) (value_nonneg_of_le hone)
  · rw [dif_neg h, if_neg Bool.false_ne_true]
    refine unsigned_iff.mp (Unsigned.pack (u := UnpackedFloat.ofScientific .binary64 n 0) ?_)
    rw [UnpackedFloat.ofScientific]
    split_ifs with _ _ _ hpow
    · exact .zero _
    · exact .infinity
    · exact .zero _
    · exact Unsigned.mul (.finite _ _ _) (.finite _ _ _)
    · exact absurd le_rfl hpow

theorem value_ofInt_nonneg {n : ℤ} {x : Float} (hn : 0 ≤ n) (h : ofInt n = .ok x) :
    0 ≤ value x := by
  rw [ofInt] at h
  split_ifs at h
  obtain rfl := Except.ok.inj h
  cases n with
  | ofNat n => exact value_ofNat_nonneg n
  | negSucc n => exact absurd hn (by omega)

/-! ## Products

The product of two mantissas has 53 digits at least if one of them has.  If neither has, both
exponents are the lowest, and their sum is far below it. -/

/-- The product of rounded numbers is rounded right. -/
theorem mul_ok {u v : UnpackedFloat} (hu : Unsigned u) (hv : Unsigned v) (ru : IsRounded u)
    (rv : IsRounded v) : IsRounded (UnpackedFloat.mul .binary64 u v) ∧
      ((UnpackedFloat.mul .binary64 u v).isFinite = true → u.isFinite = true ∧ v.isFinite = true ∧
        |valueOf (UnpackedFloat.mul .binary64 u v) - valueOf u * valueOf v| ≤
          valueOf u * valueOf v / 2 ^ 53 + lowest) := by
  cases hu <;> cases hv
  case finite.finite m e hm m' e' hm' =>
    -- a short product has two short factors, which are at the lowest place
    have hlong : 2 ^ 52 ≤ m * m' ∨ e + e' ≤ -1074 := by
      rcases ru.full with hfull | he
      · exact .inl (hfull.trans (Nat.le_mul_of_pos_right _ hm'))
      · rcases rv.full with hfull | he'
        · exact .inl (hfull.trans (Nat.le_mul_of_pos_left _ hm))
        · exact .inr (by omega)
    obtain ⟨hrounded, herror⟩ := roundWithAccuracy_ok (Nat.mul_pos hm hm') hlong
    have hvalue : valueOf (.finite .positive m e hm) * valueOf (.finite .positive m' e' hm') =
        ((m * m' : ℕ) : ℚ) * 2 ^ (e + e') := by
      rw [valueOf, valueOf, zpow_add₀ (by norm_num), Nat.cast_mul]
      ring
    refine ⟨hrounded, fun _ ↦ ⟨rfl, rfl, ?_⟩⟩
    rw [hvalue]
    exact herror.trans (add_le_add_right (slack_le _) _)
  -- products with zero are exact
  case zero.zero | zero.finite | finite.zero =>
    refine ⟨trivial, fun _ ↦ ⟨rfl, rfl, ?_⟩⟩
    simpa [UnpackedFloat.mul, valueOf] using lowest_nonneg
  all_goals exact ⟨trivial, fun h ↦ by cases h⟩

/-! ## Sums

The terms are shifted to the lower one of their exponents, added without loss, and rounded. -/

theorem normalize_natCast {n : ℕ} (hn : 0 < n) (e : ℤ) (s : Sign) :
    UnpackedFloat.normalize .binary64 n e s = round .binary64 .positive n e := by
  rw [UnpackedFloat.normalize, compare_gt_iff_gt.mpr (by omega : (n : ℤ) > 0)]
  rfl

/-- A number, shifted to a lower exponent. -/
theorem cast_shiftLeft_mul {e l : ℤ} (h : l ≤ e) (m : ℕ) :
    ((m <<< (e - l).toNat : ℕ) : ℚ) * 2 ^ l = m * 2 ^ e := by
  have he : (e - l).toNat + l = e := by omega
  rw [Nat.shiftLeft_eq, Nat.cast_mul, Nat.cast_pow, Nat.cast_ofNat, mul_assoc, ← zpow_natCast,
    ← zpow_add₀ (by norm_num), he]

theorem error_of_eq {a b : ℚ} (h : a = b) (hb : 0 ≤ b) : |a - b| ≤ b / 2 ^ 53 := by
  rw [h, sub_self, abs_zero]
  positivity

/-- The sum of rounded numbers is rounded right. -/
theorem add_ok {u v : UnpackedFloat} (hu : Unsigned u) (hv : Unsigned v) (ru : IsRounded u)
    (rv : IsRounded v) : IsRounded (UnpackedFloat.add .binary64 u v) ∧
      ((UnpackedFloat.add .binary64 u v).isFinite = true → u.isFinite = true ∧ v.isFinite = true ∧
        |valueOf (UnpackedFloat.add .binary64 u v) - (valueOf u + valueOf v)| ≤
          (valueOf u + valueOf v) / 2 ^ 53) := by
  have hsum : 0 ≤ valueOf u + valueOf v := add_nonneg (unsigned_iff.mp hu) (unsigned_iff.mp hv)
  cases hu <;> cases hv
  case finite.finite m e hm m' e' hm' =>
    -- both terms at the lower exponent, where nothing is lost
    have hpos : 0 < m <<< (e - min e e').toNat + m' <<< (e' - min e e').toNat := by
      rw [Nat.shiftLeft_eq, Nat.shiftLeft_eq]
      positivity
    have hlow : -1074 ≤ min e e' := le_min ru.low rv.low
    have hvalue : valueOf (.finite .positive m e hm) + valueOf (.finite .positive m' e' hm') =
        ((m <<< (e - min e e').toNat + m' <<< (e' - min e e').toNat : ℕ) : ℚ) * 2 ^ min e e' := by
      rw [Nat.cast_add, add_mul, cast_shiftLeft_mul (min_le_left e e'),
        cast_shiftLeft_mul (min_le_right e e'), valueOf, valueOf]
    obtain ⟨hrounded, herror⟩ := round_ok hpos hlow
    rw [← normalize_natCast hpos _ .positive] at hrounded herror
    refine ⟨hrounded, fun _ ↦ ⟨rfl, rfl, ?_⟩⟩
    rw [hvalue]
    exact herror
  case zero.zero s s' =>
    cases s <;> cases s'
    all_goals exact ⟨trivial, fun _ ↦ ⟨rfl, rfl, error_of_eq (add_zero 0).symm hsum⟩⟩
  case zero.finite s m e hm =>
    exact ⟨rv, fun _ ↦ ⟨rfl, rfl, error_of_eq (zero_add _).symm hsum⟩⟩
  case finite.zero m e hm s =>
    exact ⟨ru, fun _ ↦ ⟨rfl, rfl, error_of_eq (add_zero _).symm hsum⟩⟩
  all_goals exact ⟨trivial, fun h ↦ by cases h⟩

/-- What a packed result says of the result, if it is a number. -/
theorem isFinite_of_pack {u : UnpackedFloat} {x : Float} (hu : IsRounded u)
    (h : x.toModel = Float.Model.pack u) (hx : x.isFinite = true) :
    u.isFinite = true ∧ value x = valueOf u := by
  have hpack : x.toModel.unpack = u := by
    have hfinite : x.toModel.unpack.isFinite = true := hx
    rw [h] at hfinite ⊢
    exact unpack_pack_of_isFinite hu hfinite
  rw [← hpack]
  exact ⟨hx, rfl⟩

/-- **Products.**  A product that is a number has the product of the values for its value, but for
one part in `2 ^ 53` and the lowest place. -/
theorem value_mul {x y : Float} (hx : 0 ≤ value x) (hy : 0 ≤ value y)
    (h : (x * y).isFinite = true) : x.isFinite = true ∧ y.isFinite = true ∧
      |value (x * y) - value x * value y| ≤ value x * value y / 2 ^ 53 + lowest := by
  obtain ⟨hrounded, hok⟩ := mul_ok (unsigned_iff.mpr hx) (unsigned_iff.mpr hy)
    (isRounded_unpack x) (isRounded_unpack y)
  obtain ⟨hfinite, hvalue⟩ := isFinite_of_pack (x := x * y) hrounded rfl h
  rw [hvalue]
  exact hok hfinite

/-- **Sums.**  A sum that is a number has the sum of the values for its value, but for one part in
`2 ^ 53`. -/
theorem value_add {x y : Float} (hx : 0 ≤ value x) (hy : 0 ≤ value y)
    (h : (x + y).isFinite = true) : x.isFinite = true ∧ y.isFinite = true ∧
      |value (x + y) - (value x + value y)| ≤ (value x + value y) / 2 ^ 53 := by
  obtain ⟨hrounded, hok⟩ := add_ok (unsigned_iff.mpr hx) (unsigned_iff.mpr hy)
    (isRounded_unpack x) (isRounded_unpack y)
  obtain ⟨hfinite, hvalue⟩ := isFinite_of_pack (x := x + y) hrounded rfl h
  rw [hvalue]
  exact hok hfinite

/-! ## Finite numbers -/

theorem value_lt_of_isFinite {x : Float} (h : x.isFinite = true) : value x < 2 ^ 1024 := by
  have hbig : (0 : ℚ) < 2 ^ 1024 := by positivity
  have hfinite : x.toModel.unpack.isFinite = true := h
  rw [value]
  cases hx : x.toModel.unpack with
  | notANumber => rw [hx] at hfinite; cases hfinite
  | infinity s => rw [hx] at hfinite; cases hfinite
  | zero s => exact hbig
  | finite s m e hm =>
    have hlt := (canonical_of_unpack hx).mul_lt
    cases s with
    | negative =>
      have hpos : (0 : ℚ) ≤ m * 2 ^ e := by positivity
      exact (neg_nonpos.mpr hpos).trans_lt hbig
    | positive => exact hlt

/-- Between zero and a number there are only numbers. -/
theorem isFinite_of_le {x y : Float} (hx : 0 ≤ value x) (h : x ≤ y) (hy : y.isFinite = true) :
    x.isFinite = true := by
  obtain ⟨hnan, hnan'⟩ := isNaN_of_le h
  have hle := (le_iff hnan hnan').mp h
  have hlt := hle.trans_lt (value_lt_of_isFinite hy)
  have hnumber : x.toModel.unpack.isNaN = false := hnan
  show x.toModel.unpack.isFinite = true
  have hu := unsigned_iff.mpr hx
  rw [value] at hlt
  generalize x.toModel.unpack = u at *
  cases hu with
  | notANumber => cases hnumber
  | infinity => exact absurd hlt (lt_irrefl _)
  | zero s => rfl
  | finite m e hm => rfl

/-! ## Whole parts

A dyadic number is a quotient of two natural numbers, and its whole part is their quotient by
division with remainder. -/

/-- The quotient of natural numbers that a dyadic number is. -/
theorem Dyadic.quotient_eq (d : Dyadic) :
    (d.quotient.1 : ℚ) / d.quotient.2 = d.mantissa * 2 ^ d.exponent := by
  have hpow (k : ℕ) : Nat.pow 2 k = 2 ^ k := rfl
  rw [quotient]
  split_ifs with h
  · have he : (d.exponent.toNat : ℤ) = d.exponent := Int.toNat_of_nonneg h
    rw [hpow, Nat.cast_mul, Nat.cast_pow, Nat.cast_ofNat, Nat.cast_one, div_one, ← zpow_natCast, he]
  · have he : ((-d.exponent).toNat : ℤ) = -d.exponent := Int.toNat_of_nonneg (by omega)
    rw [hpow, Nat.cast_pow, Nat.cast_ofNat, ← zpow_natCast, he, zpow_neg, div_inv_eq_mul]

theorem Dyadic.truncate_eq_floor {d : Dyadic} (h : d.negative = false) :
    d.truncate = ⌊(d.mantissa : ℚ) * 2 ^ d.exponent⌋ := by
  rw [← quotient_eq, Rat.floor_natCast_div_natCast, truncate, h]
  rfl

theorem Dyadic.truncate_zero (s : Bool) (e : ℤ) : (Dyadic.mk s 0 e).truncate = 0 := by
  have hzero : (Dyadic.mk s 0 e).quotient.1 / (Dyadic.mk s 0 e).quotient.2 = 0 := by
    rw [quotient]
    split_ifs
    · rw [Nat.zero_mul, Nat.zero_div]
    · exact Nat.zero_div _
  rw [truncate, hzero]
  cases s <;> rfl

/-- The whole part of a number that is not negative is its floor; nothing else has one. -/
theorem truncate_ok {x : Float} {n : ℤ} (hx : 0 ≤ value x) (h : truncate x = .ok n) :
    x.isFinite = true ∧ n = ⌊value x⌋ := by
  rw [truncate, Double.ofFloat_eq] at h
  show x.toModel.unpack.isFinite = true ∧ n = ⌊valueOf x.toModel.unpack⌋
  have hu := unsigned_iff.mpr hx
  generalize x.toModel.unpack = u at h hu
  cases hu with
  | notANumber => cases h
  | infinity => cases h
  | zero s =>
    obtain rfl := Except.ok.inj h
    refine ⟨rfl, ?_⟩
    rw [valueOf, Int.floor_zero, Dyadic.truncate_zero]
  | finite m e hm =>
    obtain rfl := Except.ok.inj h
    exact ⟨rfl, Dyadic.truncate_eq_floor rfl⟩

end TextScore.Number
