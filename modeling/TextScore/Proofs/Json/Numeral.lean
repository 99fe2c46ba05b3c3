import TextScore.Proofs.Json.Reader
import TextScore.Proofs.Number.Layout
import TextScore.Proofs.Text.Class

/-!
# Printed numbers are read back

Integers are printed in digits, finite doubles with a fraction or an exponent behind the digits, and
there is never a zero in front of other digits.  So a reader of JSON text can read them, and it can
tell the ones from the others.

The second is what standard JSON does not give.  It has one kind of numbers, and that a number is a
whole one can only be seen from the way in which it is printed.  So `5` and `5.0` are different
here, as they are to the programs that read the text.

That no zero stands in front of other digits has to be shown of the shortest digits of a double, and
these come out of a search, through ever finer grids of decimals, for one that reads as the double.
It is enough that zero reads as no other double than zero; then the digits do not stand for zero,
and without the zeros at their ends they start with another digit.

## What is here

* `ofNumeral?_signedDigits` — a printed integer is that integer.
* `shortest_coefficient_ne_zero` — the digits of a double that is not zero stand for no zero.
* `IsUnsigned`, `isUnsigned_showShortestAbsolute` — how a double is printed.
* `ofNumeral?_showShortest` — a printed double is read as it is printed.
* `readNumber?_append` — a number ends where no character of numbers follows.
-/

set_option autoImplicit false

namespace TextScore.Json

open Number Text

/-! ## Digits

The reader takes digits in ASCII only, which are all that is printed. -/

theorem isDigit_digitChar : ∀ d < 10, (Nat.digitChar d).isDigit = true := by decide

theorem ascii_of_mem_digits {n : Nat} {c : Char} (h : c ∈ digits n) : c.isDigit = true := by
  obtain ⟨d, hd, rfl⟩ := exists_digitChar c h
  exact isDigit_digitChar d hd

/-- A positive number does not start with a zero. -/
theorem head?_digits {n : Nat} (hn : 0 < n) : ∀ c ∈ (digits n).head?, c ≠ '0' := by
  induction n using Nat.strongRecOn with
  | ind n ih =>
    intro c hc
    rw [digits] at hc
    by_cases hlow : n < 10
    · have hfirst : ∀ d < 10, 0 < d → Nat.digitChar d ≠ '0' := by decide
      rw [Nat.toDigits_of_lt_base hlow, List.head?_cons, Option.mem_some_iff] at hc
      rw [← hc]
      exact hfirst n hlow hn
    · rw [← Nat.div_add_mod n 10, ← Nat.toDigits_append_toDigits (by decide) (by omega)
        (Nat.mod_lt n (by decide)), List.head?_append_of_ne_nil _ Nat.toDigits_ne_nil] at hc
      exact ih (n / 10) (by omega) (by omega) c hc

theorem isWhole_of_head? {ds : List Char} (hne : ds ≠ []) (h : ∀ c ∈ ds.head?, c ≠ '0') :
    isWhole ds = true := by
  cases ds with
  | nil => exact absurd rfl hne
  | cons d ds =>
    cases ds with
    | nil => rfl
    | cons d' ds => exact bne_iff_ne.mpr (h d rfl)

theorem isWhole_digits (n : Nat) : isWhole (digits n) = true := by
  rcases Nat.eq_zero_or_pos n with rfl | hn
  · decide
  · exact isWhole_of_head? (digits_ne_nil n) (head?_digits hn)

/-- What some digits and what follows them are read as. -/
theorem ofNumeral?_eq {text whole rest : List Char} (h : dropMinus text = whole ++ rest)
    (hdigit : ∀ c ∈ whole, c.isDigit = true) (hrest : ∀ c ∈ rest.head?, c.isDigit = false)
    (hwhole : isWhole whole = true) (hfraction : isFraction rest = true) :
    ofNumeral? text = if rest.isEmpty then
        some (.int (if text.head? = some '-' then -digitsValue whole else digitsValue whole))
      else some (.decimal text) := by
  obtain ⟨htake, hdrop⟩ := span_append hdigit hrest
  rw [ofNumeral?, h, htake, hdrop, hwhole, hfraction]
  rfl

/-- A printed integer is that integer. -/
theorem ofNumeral?_signedDigits (n : Int) : ofNumeral? (signedDigits n) = some (.int n) := by
  have hnil : ∀ c ∈ ([] : List Char).head?, c.isDigit = false := fun c hc ↦ by cases hc
  cases n with
  | ofNat n =>
    have hminus : (digits n).head? ≠ some '-' := by
      intro hhead
      exact absurd (ascii_of_mem_digits (List.mem_of_head? hhead)) (by decide)
    have hdrop : dropMinus (digits n) = digits n ++ [] := by
      rw [List.append_nil, dropMinus.eq_def]
      split
      case h_1 s hs => exact absurd (by rw [hs]; rfl) hminus
      case h_2 => rfl
    rw [signedDigits, ofNumeral?_eq hdrop (fun _ ↦ ascii_of_mem_digits) hnil (isWhole_digits n) rfl,
      if_neg hminus, digitsValue_digits]
    rfl
  | negSucc n =>
    have hdrop : dropMinus ('-' :: digits (n + 1)) = digits (n + 1) ++ [] :=
      (List.append_nil _).symm
    rw [signedDigits, ofNumeral?_eq hdrop (fun _ ↦ ascii_of_mem_digits) hnil
      (isWhole_digits _) rfl, digitsValue_digits]
    rfl

/-! ## Doubles

A decimal is a coefficient with an exponent.  Its digits are those of the coefficient, and the
exponent says where the point stands. -/

/-- Zero reads as no double but zero. -/
theorem readsAs_zero {d : Number.Dyadic} (h : d.mantissa ≠ 0) (t : Int) :
    readsAs d 0 t = false := by
  have hbelow : below d ≤ 2 := by
    rw [below]
    split <;> omega
  have hlow : 0 < (4 * d.mantissa - below d) * Nat.pow 2 (d.exponent - 2).toNat *
      Nat.pow 10 (-t).toNat :=
    Nat.mul_pos (Nat.mul_pos (by omega) (Nat.pow_pos (by decide))) (Nat.pow_pos (by decide))
  rw [readsAs]
  dsimp only
  rw [Nat.zero_mul, Nat.zero_mul, decide_eq_false (Nat.not_le.mpr hlow),
    decide_eq_false (Nat.not_lt.mpr hlow.le), Bool.false_and, Bool.false_and, ite_self]

theorem nearestOnGrid_coefficient_ne_zero {d : Number.Dyadic} (h : d.mantissa ≠ 0) {t : Int}
    {s : Decimal} (hs : nearestOnGrid d t = some s) : s.coefficient ≠ 0 := by
  have hread {q : Nat} (hq : readsAs d q t = true) : q ≠ 0 := by
    rintro rfl
    rw [readsAs_zero h] at hq
    cases hq
  rw [nearestOnGrid] at hs
  split at hs
  case h_1 hq _ =>
    obtain rfl := Option.some.inj hs
    dsimp only
    split
    · exact Nat.succ_ne_zero _
    · exact hread hq
  case h_2 hq _ =>
    obtain rfl := Option.some.inj hs
    exact hread hq
  case h_3 =>
    obtain rfl := Option.some.inj hs
    exact Nat.succ_ne_zero _
  case h_4 => cases hs

/-- The digits of a double that is not zero stand for no zero. -/
theorem shortest_coefficient_ne_zero {d : Number.Dyadic} (h : d.mantissa ≠ 0) :
    (shortest d).coefficient ≠ 0 := by
  rw [shortest]
  cases hfound : (List.range 17).findSome? fun n : Nat ↦
    nearestOnGrid d (leadingExponent d.quotient.1 d.quotient.2 - n) with
  | none => exact h
  | some s =>
    obtain ⟨n, -, hs⟩ := List.exists_of_findSome?_eq_some hfound
    exact nearestOnGrid_coefficient_ne_zero h hs

theorem dropTrailingZeros_cons {c : Char} (hc : c ≠ '0') (cs : List Char) :
    dropTrailingZeros (c :: cs) = c :: dropTrailingZeros cs := by
  have hlast : [c].dropWhile (· == '0') = [c] := by simp [hc]
  rw [dropTrailingZeros, List.reverse_cons, List.dropWhile_append, hlast, dropTrailingZeros]
  split
  case isTrue h => simp [List.isEmpty_iff.mp h]
  case isFalse => simp

/-- A number without sign that has a fraction or an exponent. -/
def IsUnsigned (s : List Char) : Prop :=
  ∃ whole rest, s = whole ++ rest ∧ (∀ c ∈ whole, c.isDigit = true) ∧ isWhole whole = true ∧
    rest ≠ [] ∧ (∀ c ∈ rest.head?, c.isDigit = false) ∧ isFraction rest = true

theorem isExponent_showExponent (e : Int) : isExponent (showExponent e) = true := by
  have hsign : ∃ negative, dropSign ((if e < 0 then '-' else '+') ::
      (List.replicate (2 - (digits e.natAbs).length) '0' ++ digits e.natAbs)) =
        (negative, List.replicate (2 - (digits e.natAbs).length) '0' ++ digits e.natAbs) := by
    split
    · exact ⟨_, rfl⟩
    · exact ⟨_, rfl⟩
  obtain ⟨negative, hsign⟩ := hsign
  rw [showExponent, isExponent, hsign]
  have hall : ∀ c ∈ List.replicate (2 - (digits e.natAbs).length) '0' ++ digits e.natAbs,
      c.isDigit = true := by
    intro c hc
    rcases List.mem_append.mp hc with hc | hc
    · rw [List.eq_of_mem_replicate hc]
      decide
    · exact ascii_of_mem_digits hc
  simp [digits_ne_nil, List.all_eq_true.mpr hall]

/-- A point and digits behind it, and what may follow them. -/
theorem isFraction_point {ds r : List Char} (hne : ds ≠ []) (hds : ∀ c ∈ ds, c.isDigit = true)
    (hr : ∀ c ∈ r.head?, c.isDigit = false) (hexp : isExponent r = true) :
    isFraction ('.' :: (ds ++ r)) = true := by
  obtain ⟨htake, hdrop⟩ := span_append hds hr
  rw [isFraction, htake, hdrop, hexp, Bool.and_true, Bool.not_eq_true',
    List.isEmpty_eq_false_iff]
  exact hne

section

variable {ds : List Char} (hne : ds ≠ []) (hds : ∀ c ∈ ds, c.isDigit = true)

include hne hds

theorem isUnsigned_showScientific (e : Int) : IsUnsigned (showScientific ds e) := by
  have hexp := isExponent_showExponent e
  have hhead : ∀ c ∈ (showExponent e).head?, c.isDigit = false := by
    intro c hc
    cases hc
    decide
  cases ds with
  | nil => exact absurd rfl hne
  | cons d ds =>
    have hd : ∀ c ∈ [d], c.isDigit = true :=
      List.forall_mem_singleton.mpr (hds d List.mem_cons_self)
    cases ds with
    | nil => exact ⟨[d], showExponent e, rfl, hd, rfl, List.cons_ne_nil _ _, hhead, hexp⟩
    | cons d' ds =>
      refine ⟨[d], '.' :: (d' :: ds ++ showExponent e), rfl, hd, rfl, List.cons_ne_nil _ _, ?_, ?_⟩
      · intro c hc
        cases hc
        decide
      · exact isFraction_point (List.cons_ne_nil _ _)
          (fun c hc ↦ hds c (List.mem_cons_of_mem _ hc)) hhead hexp

theorem isUnsigned_showPositional (hfirst : ∀ c ∈ ds.head?, c ≠ '0') (e : Int) :
    IsUnsigned (showPositional ds e) := by
  have hpoint {s : List Char} : ∀ c ∈ ('.' :: s).head?, c.isDigit = false := by
    intro c hc
    cases hc
    decide
  -- digits behind the point, and nothing behind them
  have hfraction {s : List Char} (hs : s ≠ []) (hdigit : ∀ c ∈ s, c.isDigit = true) :
      isFraction ('.' :: s) = true := by
    rw [← List.append_nil s]
    exact isFraction_point hs hdigit (fun c hc ↦ by cases hc) rfl
  have hzero : ∀ c ∈ ['0'], c.isDigit = true := List.forall_mem_singleton.mpr (by decide)
  have hzeros {n : Nat} : ∀ c ∈ List.replicate n '0', c.isDigit = true := by
    intro c hc
    rw [List.eq_of_mem_replicate hc]
    decide
  rw [showPositional]
  split
  case isTrue =>
    refine ⟨['0'], _, rfl, hzero, rfl, List.cons_ne_nil _ _, hpoint, hfraction ?_ ?_⟩
    · exact List.append_ne_nil_of_right_ne_nil _ hne
    · exact List.forall_mem_append.mpr ⟨hzeros, hds⟩
  case isFalse =>
    have hpadded : ∀ c ∈ ds ++ List.replicate (e.toNat + 1 - ds.length) '0', c.isDigit = true :=
      List.forall_mem_append.mpr ⟨hds, hzeros⟩
    refine ⟨_, _, rfl, fun c hc ↦ hpadded c (List.mem_of_mem_take hc), ?_, List.cons_ne_nil _ _,
      hpoint, hfraction ?_ ?_⟩
    · refine isWhole_of_head? ?_ fun c hc ↦ hfirst c ?_
      · simp [hne]
      · rwa [List.head?_take, if_neg (Nat.succ_ne_zero _), List.head?_append_of_ne_nil _ hne] at hc
    · split
      · exact List.cons_ne_nil _ _
      · rw [Ne, List.drop_eq_nil_iff, List.length_append]
        omega
    · split
      · exact hzero
      · exact fun c hc ↦ hpadded c (List.mem_of_mem_drop hc)

end

/-- The absolute value of a double is printed with a fraction or an exponent. -/
theorem isUnsigned_showShortestAbsolute (d : Number.Dyadic) :
    IsUnsigned (showShortestAbsolute d) := by
  rw [showShortestAbsolute]
  split
  case isTrue =>
    refine ⟨['0'], ['.', '0'], rfl, List.forall_mem_singleton.mpr (by decide), rfl,
      List.cons_ne_nil _ _, fun c hc ↦ ?_, by decide⟩
    cases hc
    decide
  case isFalse h =>
    have hpos := Nat.pos_of_ne_zero (shortest_coefficient_ne_zero h)
    have hall : ∀ c ∈ dropTrailingZeros (digits (shortest d).coefficient), c.isDigit = true :=
      fun c hc ↦ ascii_of_mem_digits (mem_of_mem_dropTrailingZeros hc)
    have hfirst := head?_digits hpos
    obtain ⟨c, cs, hds⟩ := List.exists_cons_of_ne_nil (digits_ne_nil (shortest d).coefficient)
    dsimp only
    rw [hds] at hfirst hall ⊢
    rw [dropTrailingZeros_cons (hfirst c rfl)] at hall ⊢
    split
    · exact isUnsigned_showPositional (List.cons_ne_nil _ _) hall (fun c' hc ↦ hfirst c' hc) _
    · exact isUnsigned_showScientific (List.cons_ne_nil _ _) hall _

/-- A printed double is read as it is printed. -/
theorem ofNumeral?_showShortest {names : SpecialNames} {x : Float} (hx : x.isFinite = true) :
    ofNumeral? (showShortest names x) = some (.decimal (showShortest names x)) := by
  obtain ⟨d, hd⟩ := isFinite_iff.mp hx
  have hshow : showShortest names x = withSign d.negative (showShortestAbsolute d) := by
    rw [showShortest, showDouble, hd]
  obtain ⟨whole, rest, hs, hdigit, hwhole, hne, hhead, hfraction⟩ :=
    isUnsigned_showShortestAbsolute d
  have hdrop : dropMinus (showShortest names x) = whole ++ rest := by
    rw [hshow, hs, withSign]
    split
    · rfl
    · cases whole with
      | nil => cases hwhole
      | cons c whole =>
        have hc : c ≠ '-' := by
          rintro rfl
          exact absurd (hdigit _ List.mem_cons_self) (by decide)
        rw [List.cons_append, dropMinus.eq_def]
        split
        case h_1 heq => exact absurd (List.cons.inj heq).1 hc
        case h_2 => rfl
  rw [ofNumeral?_eq hdrop hdigit hhead hwhole hfraction, if_neg]
  rwa [List.isEmpty_iff]

/-! ## Numbers in a text

A number has no closing mark, so the reader goes on as long as there are characters of numbers.  In
a text, a comma, a line break or a closing mark follows. -/

/-- No character of numbers stands at the front. -/
def EndsNumber (s : List Char) : Prop := ∀ c ∈ s.head?, isNumberChar c = false

theorem isNumberChar_of_mem {c : Char} (h : c ∈ numeralChars) : isNumberChar c = true := by
  have hall : numeralChars.all isNumberChar = true := by decide
  exact List.all_eq_true.mp hall c h

/-- A number ends where no character of numbers follows. -/
theorem readNumber?_append {s r : List Char} {d : Datum} (hs : ∀ c ∈ s, c ∈ numeralChars)
    (hd : ofNumeral? s = some d) (hr : EndsNumber r) : readNumber? (s ++ r) = some (d, r) := by
  obtain ⟨htake, hdrop⟩ := span_append (fun c hc ↦ isNumberChar_of_mem (hs c hc)) hr
  rw [readNumber?, htake, hdrop, hd]
  rfl

end TextScore.Json
