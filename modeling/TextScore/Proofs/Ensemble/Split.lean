import TextScore.Ensemble.Declaration
import TextScore.Proofs.Text.Class
import TextScore.Proofs.Text.Scan

/-!
# Where a line of declarations is cut

A line is cut at the blanks before every `def` that a blank follows, also when they stand between
quotes.  A line without such a `def` is one declaration.

Cutting comes before reading, so at that point nothing is known of quotes.  The condition that a
line is not cut is about the text of the whole line, and it has to be broken down to the parts of a
line: a `def` with blanks around it stands in the id, in the name or in the attributes, and not
across them, since the marks between them are neither blanks nor in words.

* `HoldsDef` — the word `def` stands in a text, with blanks before and behind it.
* `HoldsDef.of_append` — it does not stand across a mark that is neither a blank nor in a name.
* `splitDeclarations_eq_singleton_iff` — a line is cut just if it has it.
-/

set_option autoImplicit false

namespace TextScore

open Text

/-- The word `def`, in any case. -/
def IsDef (w : List Char) : Prop := dropKeyword? "def".toList w = some []

instance (w : List Char) : Decidable (IsDef w) := inferInstanceAs (Decidable (_ = _))

/-- The word `def` stands in the text, with blanks before and behind it. -/
def HoldsDef (s : List Char) : Prop :=
  ∃ u b w c v, s = u ++ b :: (w ++ c :: v) ∧ isBlank b = true ∧ IsDef w ∧ isBlank c = true

section

variable {b c : Char} {s t w : List Char}

theorem isLetter_def : "def".toList.all isLetter = true := by decide +kernel

theorem isWord_of_isDef (h : IsDef w) (hc : c ∈ w) : isWord c = true := by
  obtain ⟨-, hdrop⟩ := dropKeyword?_takeWhile isLetter_def h
  rw [← w.takeWhile_append_dropWhile (p := isWord), hdrop, List.dropWhile_nil,
    List.append_nil] at hc
  exact List.all_eq_true.mp List.all_takeWhile c hc

/-- A text starts with `def` and a blank if its first word is `def`. -/
theorem startsDef_eq (s : List Char) : startsDef s =
    (dropKeyword? "def".toList (s.takeWhile isWord) == some [] &&
      (s.dropWhile isWord).head?.any isBlank) := by
  have hends : ∀ r : List Char, r.head?.any isBlank = true → ∀ c ∈ r.head?, isWord c = false := by
    intro r hr c hc
    rw [hc] at hr
    exact isWord_of_isBlank hr
  rw [← any_dropKeyword? isLetter_def hends, startsDef]
  cases dropKeyword? "def".toList s <;> rfl

theorem startsDef_append (hw : ∀ c ∈ w, isWord c = true) (ht : ∀ c ∈ t.head?, isWord c = false) :
    startsDef (w ++ t) = true ↔ IsDef w ∧ t.head?.any isBlank = true := by
  obtain ⟨htake, hdrop⟩ := span_append hw ht
  rw [startsDef_eq, htake, hdrop, Bool.and_eq_true, beq_iff_eq, IsDef]

theorem startsDef_iff : startsDef s = true ↔
    ∃ w c v, s = w ++ c :: v ∧ IsDef w ∧ isBlank c = true := by
  constructor
  · intro h
    rw [startsDef_eq, Bool.and_eq_true, beq_iff_eq] at h
    cases hdrop : s.dropWhile isWord with
    | nil =>
      rw [hdrop] at h
      cases h.2
    | cons c v =>
      rw [hdrop] at h
      exact ⟨_, c, v, by rw [← hdrop, List.takeWhile_append_dropWhile], h.1, h.2⟩
  · rintro ⟨w, c, v, rfl, hw, hc⟩
    refine (startsDef_append (fun d hd ↦ isWord_of_isDef hw hd) fun d hd ↦ ?_).mpr ⟨hw, hc⟩
    cases hd
    exact isWord_of_isBlank hc

/-- What stands behind a mark that is neither a blank nor in a name does not matter for the first
word. -/
theorem startsDef_of_append {q : Char} (hblank : isBlank q = false) (hword : isWord q = false)
    (h : startsDef (s ++ q :: t) = true) : startsDef s = true := by
  obtain ⟨w, c, v, hs, hw, hc⟩ := startsDef_iff.mp h
  rw [startsDef_iff]
  rcases List.append_eq_append_iff.mp hs with ⟨a, rfl, ha⟩ | ⟨a, rfl, ha⟩
  · cases a with
    | nil =>
      cases ha
      rw [hblank] at hc
      cases hc
    | cons d a =>
      cases ha
      rw [isWord_of_isDef hw (by simp)] at hword
      cases hword
  · cases a with
    | nil =>
      cases ha
      rw [hblank] at hc
      cases hc
    | cons d a =>
      cases ha
      exact ⟨w, _, a, rfl, hw, hc⟩

theorem not_holdsDef_nil : ¬HoldsDef [] := by
  rintro ⟨u, b, w, c, v, h, -⟩
  cases u <;> cases h

theorem holdsDef_cons :
    HoldsDef (b :: s) ↔ (isBlank b = true ∧ startsDef s = true) ∨ HoldsDef s := by
  constructor
  · rintro ⟨u, b', w, c, v, h, hb, hw, hc⟩
    cases u with
    | nil =>
      cases h
      exact .inl ⟨hb, startsDef_iff.mpr ⟨w, c, v, rfl, hw, hc⟩⟩
    | cons d u =>
      cases h
      exact .inr ⟨u, b', w, c, v, rfl, hb, hw, hc⟩
  · rintro (⟨hb, hs⟩ | ⟨u, b', w, c, v, rfl, hb, hw, hc⟩)
    · obtain ⟨w, c, v, rfl, hw, hc⟩ := startsDef_iff.mp hs
      exact ⟨[], b, w, c, v, rfl, hb, hw, hc⟩
    · exact ⟨b :: u, b', w, c, v, rfl, hb, hw, hc⟩

/-- Whether the word stands in a text can be tested. -/
def decideHoldsDef : (s : List Char) → Decidable (HoldsDef s)
  | [] => .isFalse not_holdsDef_nil
  | _ :: s =>
    have := decideHoldsDef s
    decidable_of_iff _ holdsDef_cons.symm

instance : DecidablePred HoldsDef := decideHoldsDef

namespace HoldsDef

theorem mono (hs : t <:+: s) (h : HoldsDef t) : HoldsDef s := by
  obtain ⟨a, d, rfl⟩ := hs
  obtain ⟨u, b, w, c, v, rfl, hb, hw, hc⟩ := h
  exact ⟨a ++ u, b, w, c, v ++ d, by simp, hb, hw, hc⟩

/-- A stretch without blanks does not matter. -/
theorem of_not_blank (hs : ∀ c ∈ s, isBlank c = false) (h : HoldsDef (s ++ t)) : HoldsDef t := by
  induction s with
  | nil => exact h
  | cons c s ih =>
    rw [List.forall_mem_cons] at hs
    rcases holdsDef_cons.mp h with ⟨hc, -⟩ | h
    · rw [hs.1] at hc
      cases hc
    · exact ih hs.2 h

/-- The word does not stand across a mark that is neither a blank nor in a name. -/
theorem of_append {q : Char} (hblank : isBlank q = false) (hword : isWord q = false)
    (h : HoldsDef (s ++ q :: t)) : HoldsDef s ∨ HoldsDef t := by
  induction s with
  | nil => exact .inr (of_not_blank (s := [q]) (by simpa using hblank) h)
  | cons c s ih =>
    rcases holdsDef_cons.mp h with ⟨hc, hs⟩ | h
    · exact .inl (holdsDef_cons.mpr (.inl ⟨hc, startsDef_of_append hblank hword hs⟩))
    · exact (ih h).imp_left fun hs ↦ holdsDef_cons.mpr (.inr hs)

theorem of_dropWhile (hb : isBlank b = true) (h : startsDef (s.dropWhile isBlank) = true) :
    HoldsDef (b :: s) := by
  induction s generalizing b with
  | nil => cases h
  | cons c s ih =>
    rw [holdsDef_cons]
    by_cases hc : isBlank c = true
    · rw [List.dropWhile_cons_of_pos hc] at h
      exact .inr (ih hc h)
    · rw [List.dropWhile_cons_of_neg hc] at h
      exact .inl ⟨hb, h⟩

end HoldsDef

/-- What starts with `def` does not start with a blank. -/
theorem dropWhile_of_startsDef (h : startsDef s = true) : s.dropWhile isBlank = s := by
  obtain ⟨w, c, v, rfl, hw, -⟩ := startsDef_iff.mp h
  refine dropWhile_isBlank_eq_self fun d hd ↦ ?_
  cases w with
  | nil => exact absurd hw (by decide)
  | cons e w =>
    cases hd
    exact isBlank_of_isWord (isWord_of_isDef hw List.mem_cons_self)

/-- A line is cut just where `def` stands between blanks. -/
theorem found_separators_eq_nil_iff : found (separators.pieces s) = [] ↔ ¬HoldsDef s := by
  rw [Recogniser.found_pieces_eq_nil_iff fun _ _ ↦ rfl]
  constructor
  · rintro h ⟨u, b, w, c, v, rfl, hb, hw, hc⟩
    have hstarts : startsDef (w ++ c :: v) = true := startsDef_iff.mpr ⟨w, c, v, rfl, hw, hc⟩
    have hnone : readSeparator? (b :: (w ++ c :: v)) = none := h _ (List.suffix_append u _)
    rw [readSeparator?, dropWhile_of_startsDef hstarts, hb, hstarts] at hnone
    cases hnone
  · intro h t ht
    show readSeparator? t = none
    rw [readSeparator?.eq_def]
    split
    case h_1 => rfl
    case h_2 c t =>
      refine if_neg fun hc ↦ h ?_
      rw [Bool.and_eq_true] at hc
      exact .mono ht.isInfix (.of_dropWhile hc.1 hc.2)

/-- The parts of a line are what stands between the cuts. -/
theorem flatten_foldr_partStep (ps : List (Piece Unit)) :
    ((ps.foldr partStep ([], [])).1 :: (ps.foldr partStep ([], [])).2).flatten =
      fill (fun _ ↦ []) ps := by
  induction ps with
  | nil => rfl
  | cons p ps ih =>
    rw [List.flatten_cons] at ih
    cases p with
    | plain c =>
      rw [List.foldr_cons, fill_plain, ← ih]
      rfl
    | found u =>
      rw [List.foldr_cons, fill_found, ← ih]
      rfl

theorem foldr_partStep_snd {ps : List (Piece Unit)} (h : found ps = []) :
    (ps.foldr partStep ([], [])).2 = [] := by
  induction ps with
  | nil => rfl
  | cons p ps ih =>
    cases p with
    | plain c => exact ih h
    | found u => cases h

/-- Where a line is cut, it becomes shorter. -/
theorem length_fill_separators_lt (h : found (separators.pieces s) ≠ []) :
    (fill (fun _ ↦ []) (separators.pieces s)).length < s.length := by
  induction s using separators.scan_induction with
  | nil => exact absurd (by rw [Recogniser.pieces_nil, found_nil]) h
  | plain c s hread ih =>
    rw [Recogniser.pieces_of_none (fun _ _ ↦ rfl) hread, found_plain] at h
    rw [Recogniser.pieces_of_none (fun _ _ ↦ rfl) hread, fill_plain, List.length_cons,
      List.length_cons]
    exact Nat.succ_lt_succ (ih h)
  | found s a r hread ih =>
    have hle : (fill (fun _ ↦ []) (separators.pieces r)).length ≤ r.length := by
      have h := Recogniser.length_fill_pieces_le (p := separators) (fun _ _ ↦ rfl)
        (f := fun _ ↦ []) (fun _ ↦ Nat.le_refl 0) r
      rwa [Nat.zero_mul, Nat.add_zero] at h
    rw [Recogniser.pieces_of_some hread, fill_found, List.nil_append]
    exact Nat.lt_of_le_of_lt hle (separators.shortens hread)

/-- A line is one declaration just if the word `def` does not stand between blanks in it. -/
theorem splitDeclarations_eq_singleton_iff (hs : s ≠ []) :
    splitDeclarations s = [s] ↔ ¬HoldsDef s := by
  rw [← found_separators_eq_nil_iff, splitDeclarations]
  have hflatten := flatten_foldr_partStep (separators.pieces s)
  constructor
  · intro h
    by_contra hfound
    have hlength := length_fill_separators_lt hfound
    rw [← hflatten, ← List.flatten_filter_not_isEmpty, h, List.flatten_singleton] at hlength
    exact Nat.lt_irrefl _ hlength
  · intro h
    have hfill : fill (fun _ ↦ []) (separators.pieces s) = s :=
      Recogniser.fill_pieces_of_found_eq_nil _ false h
    have hsnd := foldr_partStep_snd h
    rw [hsnd, List.flatten_singleton, hfill] at hflatten
    rw [hsnd, hflatten, List.filter_cons_of_pos (by simpa using hs), List.filter_nil]

end

end TextScore
