import TextScore.Number.Layout
import TextScore.Proofs.Number.Numeral
import TextScore.Proofs.Number.Value

/-!
# The characters of printed numbers

However a finite double is laid out, it is written with digits, signs, a point and an `e`; the
doubles that are not finite have names instead.

A number is laid out with an exponent, with zeros in front of its digits, or with a point among or
behind them, and which of these it is depends on where the point would stand.  Most of what is to be
said of printed numbers needs only the characters: they are no control characters, no quotes and no
blanks, and they do not make up a name.

## What is here

* `numeralChars` — the characters of numbers.
* `mem_showShortest` — a finite double is written with these.
* `showShortest_of_not_isFinite` — any other has a name.
* `isFinite_iff`, `truncate_ok_iff` — the doubles that have digits and a whole part.
-/

set_option autoImplicit false

namespace TextScore.Number

/-- The characters of numbers. -/
def numeralChars : List Char := "0123456789+-.e".toList

/-! ## Integers -/

theorem digitChar_mem_numeralChars : ∀ d < 10, Nat.digitChar d ∈ numeralChars := by decide

theorem mem_numeralChars_of_mem_digits {n : ℕ} {c : Char} (h : c ∈ digits n) :
    c ∈ numeralChars := by
  obtain ⟨d, hd, rfl⟩ := exists_digitChar c h
  exact digitChar_mem_numeralChars d hd

theorem mem_numeralChars_of_mem_signedDigits {n : ℤ} {c : Char} (h : c ∈ signedDigits n) :
    c ∈ numeralChars := by
  rcases mem_signedDigits h with rfl | ⟨d, hd, rfl⟩
  · decide
  · exact digitChar_mem_numeralChars d hd

/-! ## Layouts -/

theorem mem_numeralChars_of_mem_replicate {n : ℕ} {c : Char} (h : c ∈ List.replicate n '0') :
    c ∈ numeralChars := by
  rw [List.eq_of_mem_replicate h]
  decide

theorem mem_of_mem_dropTrailingZeros {ds : List Char} {c : Char} (h : c ∈ dropTrailingZeros ds) :
    c ∈ ds := by
  rw [dropTrailingZeros, List.mem_reverse] at h
  exact List.mem_reverse.mp ((List.dropWhile_sublist _).mem h)

theorem mem_showExponent {e : ℤ} {c : Char} (h : c ∈ showExponent e) : c ∈ numeralChars := by
  rcases List.mem_cons.mp h with rfl | h
  · decide
  rcases List.mem_cons.mp h with rfl | h
  · split_ifs <;> decide
  exact (List.mem_append.mp h).elim mem_numeralChars_of_mem_replicate
    mem_numeralChars_of_mem_digits

section

variable {ds : List Char} {e : ℤ} {c : Char} (hds : ∀ c ∈ ds, c ∈ numeralChars)

include hds

theorem mem_showScientific (h : c ∈ showScientific ds e) : c ∈ numeralChars := by
  cases ds with
  | nil => exact mem_showExponent h
  | cons d rest =>
    have hd := hds d List.mem_cons_self
    cases rest with
    | nil =>
      rcases List.mem_cons.mp h with rfl | h
      · exact hd
      · exact mem_showExponent h
    | cons d' rest =>
      rcases List.mem_cons.mp h with rfl | h
      · exact hd
      rcases List.mem_cons.mp h with rfl | h
      · decide
      exact (List.mem_append.mp h).elim (fun h ↦ hds c (List.mem_cons_of_mem _ h)) mem_showExponent

theorem mem_showPositional (h : c ∈ showPositional ds e) : c ∈ numeralChars := by
  have hpadded {n : ℕ} (h : c ∈ ds ++ List.replicate n '0') : c ∈ numeralChars :=
    (List.mem_append.mp h).elim (hds c) mem_numeralChars_of_mem_replicate
  rw [showPositional] at h
  split_ifs at h with he
  · rcases List.mem_cons.mp h with rfl | h
    · decide
    rcases List.mem_cons.mp h with rfl | h
    · decide
    exact (List.mem_append.mp h).elim mem_numeralChars_of_mem_replicate (hds c)
  · rcases List.mem_append.mp h with h | h
    · exact hpadded ((List.take_sublist _ _).mem h)
    rcases List.mem_cons.mp h with rfl | h
    · decide
    split_ifs at h
    · rw [List.mem_singleton.mp h]
      decide
    · exact hpadded ((List.drop_sublist _ _).mem h)

end

theorem mem_showShortestAbsolute {d : Number.Dyadic} {c : Char}
    (h : c ∈ showShortestAbsolute d) : c ∈ numeralChars := by
  have hds : ∀ c ∈ dropTrailingZeros (digits (shortest d).coefficient), c ∈ numeralChars :=
    fun c hc ↦ mem_numeralChars_of_mem_digits (mem_of_mem_dropTrailingZeros hc)
  rw [showShortestAbsolute] at h
  split at h
  · have hzero : ['0', '.', '0'].all (· ∈ numeralChars) = true := by decide
    exact of_decide_eq_true (List.all_eq_true.mp hzero c h)
  dsimp only at h
  split at h
  · exact mem_showPositional hds h
  · exact mem_showScientific hds h

/-! ## Doubles -/

/-- The doubles that stand for a number. -/
theorem isFinite_iff {x : Float} : x.isFinite = true ↔ ∃ d, Double.ofFloat x = .finite d := by
  rw [Double.ofFloat_eq]
  show x.toModel.unpack.isFinite = true ↔ _
  cases x.toModel.unpack with
  | notANumber | infinity =>
    constructor
    · intro h
      cases h
    · rintro ⟨d, h⟩
      cases h
  | zero | finite => exact iff_of_true rfl ⟨_, rfl⟩

/-- Just the finite doubles have a whole part. -/
theorem truncate_ok_iff {x : Float} : (∃ n, truncate x = .ok n) ↔ x.isFinite = true := by
  rw [isFinite_iff, truncate]
  cases Double.ofFloat x with
  | nan | infinite =>
    refine iff_of_false ?_ ?_
    all_goals
      rintro ⟨_, h⟩
      cases h
  | finite d => exact iff_of_true ⟨_, rfl⟩ ⟨d, rfl⟩

/-- There are two reasons for a double to have no whole part. -/
theorem truncate_error {x : Float} {f : Fault} (h : truncate x = .error f) :
    f = .notANumber ∨ f = .infiniteNumber := by
  rw [truncate] at h
  split at h
  · exact .inl (Except.error.inj h).symm
  · exact .inr (Except.error.inj h).symm
  · cases h

/-- A finite double is written with the characters of numbers. -/
theorem mem_showShortest {names : SpecialNames} {x : Float} (hx : x.isFinite = true) {c : Char}
    (h : c ∈ showShortest names x) : c ∈ numeralChars := by
  obtain ⟨d, hd⟩ := isFinite_iff.mp hx
  rw [showShortest, showDouble, hd] at h
  dsimp only at h
  rw [withSign] at h
  split_ifs at h
  · rcases List.mem_cons.mp h with rfl | h
    · decide
    · exact mem_showShortestAbsolute h
  · exact mem_showShortestAbsolute h

/-- A double that is not finite has a name. -/
theorem showShortest_of_not_isFinite (names : SpecialNames) {x : Float} (hx : x.isFinite ≠ true) :
    showShortest names x = names.nan.toList ∨
      ∃ negative, showShortest names x = withSign negative names.infinity.toList := by
  rw [showShortest, showDouble]
  cases hd : Double.ofFloat x with
  | nan => exact .inl rfl
  | infinite negative => exact .inr ⟨negative, rfl⟩
  | finite d => exact absurd (isFinite_iff.mpr ⟨d, hd⟩) hx

end TextScore.Number
