import TextScore.Proofs.Text.Class
import TextScore.Text.Line

/-!
# Texts that are put together

Texts are joined in two ways, with a space between neighbours or with a line feed, and taken apart
in two ways, into words and into lines.  A separator keeps what stands on its two sides apart, so
taking apart what was joined gives the parts, or the parts of the parts.

## What is here

* `words_append_blank` — the words on both sides of a blank.
* `words_joinWith` — the words of texts with a space between neighbours.
* `words_trim` — blanks at the ends do not matter.
* `splitOnChar_append_sep` — the parts on both sides of a separator.
* `lines_unlines` — the lines of texts with a line feed between neighbours.
* `unlines_flatten` — texts that are put together of lines, put together.
* `lines_filter_feed` — of a text that is left out, all but the line feeds, the lines are empty.

Words and lines differ at the ends: a text without words has none, a text always has a line.  So the
statements about lines ask for at least one text to join.
-/

set_option autoImplicit false

namespace TextScore.Text

/-! ## Words of a text that is put together -/

/-! ### Joined texts -/

/-- The first part stands in front, each of the others behind a separator. -/
theorem joinWith_cons (sep s : List Char) (parts : List (List Char)) :
    joinWith sep (s :: parts) = s ++ parts.flatMap (sep ++ ·) := by
  induction parts generalizing s with
  | nil => simp [joinWith, List.intercalate]
  | cons t parts ih =>
    have hstep : joinWith sep (s :: t :: parts) = s ++ sep ++ joinWith sep (t :: parts) :=
      List.intercalate_cons_cons
    rw [hstep, ih, List.flatMap_cons, List.append_assoc, List.append_assoc]

/-! ### Words -/

/-- Words that are there already stay behind the new ones. -/
theorem foldr_wordStep (ws : List (List Char)) (s : List Char) :
    s.foldr wordStep ([], ws) =
      ((s.foldr wordStep ([], [])).1, (s.foldr wordStep ([], [])).2 ++ ws) := by
  induction s with
  | nil => rfl
  | cons c s ih =>
    rw [List.foldr_cons, List.foldr_cons, ih, wordStep, wordStep]
    by_cases hc : isBlank c = true
    · rw [if_pos hc, if_pos hc]
      by_cases hw : (s.foldr wordStep ([], [])).1.isEmpty = true
      · rw [if_pos hw, if_pos hw]
      · rw [if_neg hw, if_neg hw, List.cons_append]
    · rw [if_neg hc, if_neg hc]

/-- A blank keeps words apart. -/
theorem words_append_blank {b : Char} (hb : isBlank b = true) (s t : List Char) :
    words (s ++ b :: t) = words s ++ words t := by
  have hblank : wordStep b (t.foldr wordStep ([], [])) = ([], words t) := by
    rw [wordStep, if_pos hb, words]
  rw [words.eq_def (s ++ b :: t), words.eq_def s, List.foldr_append, List.foldr_cons, hblank,
    foldr_wordStep]
  dsimp only
  split
  · rfl
  · rw [List.cons_append]

theorem words_cons_blank {b : Char} (hb : isBlank b = true) (s : List Char) :
    words (b :: s) = words s :=
  words_append_blank hb [] s

theorem words_of_blank {s : List Char} (h : ∀ c ∈ s, isBlank c = true) : words s = [] := by
  induction s with
  | nil => rfl
  | cons c s ih =>
    rw [words_cons_blank (h c List.mem_cons_self)]
    exact ih fun d hd ↦ h d (List.mem_cons_of_mem c hd)

theorem words_blank_append {a : List Char} (ha : ∀ c ∈ a, isBlank c = true) (s : List Char) :
    words (a ++ s) = words s := by
  induction a with
  | nil => rfl
  | cons c a ih =>
    rw [List.cons_append, words_cons_blank (ha c List.mem_cons_self)]
    exact ih fun d hd ↦ ha d (List.mem_cons_of_mem c hd)

theorem words_append_of_blank {a : List Char} (ha : ∀ c ∈ a, isBlank c = true) (s : List Char) :
    words (s ++ a) = words s := by
  cases a with
  | nil => rw [List.append_nil]
  | cons c a =>
    rw [words_append_blank (ha c List.mem_cons_self),
      words_of_blank fun d hd ↦ ha d (List.mem_cons_of_mem c hd), List.append_nil]

/-- A text without blanks is one word. -/
theorem words_of_not_blank {s : List Char} (hne : s ≠ []) (h : ∀ c ∈ s, isBlank c = false) :
    words s = [s] := by
  have hfold : s.foldr wordStep ([], []) = (s, []) := by
    clear hne
    induction s with
    | nil => rfl
    | cons c s ih =>
      rw [List.foldr_cons, ih fun d hd ↦ h d (List.mem_cons_of_mem c hd), wordStep, if_neg]
      rw [h c List.mem_cons_self]
      exact Bool.false_ne_true
  rw [words, hfold]
  dsimp only
  rw [if_neg (by rwa [List.isEmpty_iff])]

/-- Only blanks are lost by trimming. -/
theorem exists_trim (s : List Char) : ∃ a b, s = a ++ trim s ++ b ∧
    (∀ c ∈ a, isBlank c = true) ∧ ∀ c ∈ b, isBlank c = true := by
  obtain ⟨b, hs, hb⟩ := exists_trimEnd (trimStart s)
  refine ⟨s.takeWhile isBlank, b, ?_, List.all_eq_true.mp List.all_takeWhile, hb⟩
  rw [trim, List.append_assoc, ← hs, trimStart, List.takeWhile_append_dropWhile]

/-- Blanks at the ends do not belong to any word. -/
theorem words_trim (s : List Char) : words (trim s) = words s := by
  obtain ⟨a, b, hs, ha, hb⟩ := exists_trim s
  calc words (trim s) = words (a ++ trim s ++ b) := by
        rw [words_append_of_blank hb, words_blank_append ha]
    _ = words s := by rw [← hs]

theorem words_append_flatMap (s : List Char) (parts : List (List Char)) :
    words (s ++ parts.flatMap ([' '] ++ ·)) = words s ++ parts.flatMap words := by
  induction parts generalizing s with
  | nil => rw [List.flatMap_nil, List.flatMap_nil, List.append_nil, List.append_nil]
  | cons t parts ih =>
    rw [List.flatMap_cons, List.flatMap_cons, List.append_assoc, List.singleton_append,
      words_append_blank (by decide), ih]

/-- Texts with a space between neighbours keep their words. -/
theorem words_joinWith (parts : List (List Char)) :
    words (joinWith [' '] parts) = parts.flatMap words := by
  cases parts with
  | nil => rfl
  | cons s parts => rw [joinWith_cons, words_append_flatMap, List.flatMap_cons]

/-! ## Lines of a text that is put together -/

/-- The parts on both sides of a separator are parts of the whole. -/
theorem splitOnChar_append_sep (sep : Char) (s t : List Char) :
    splitOnChar sep (s ++ sep :: t) = splitOnChar sep s ++ splitOnChar sep t := by
  induction s with
  | nil => rw [List.nil_append, splitOnChar_cons_sep, splitOnChar_nil, List.singleton_append]
  | cons c s ih =>
    rw [List.cons_append]
    by_cases hc : c = sep
    · rw [hc, splitOnChar_cons_sep, splitOnChar_cons_sep, ih, List.cons_append]
    · obtain ⟨p, ps, hs⟩ := List.exists_cons_of_ne_nil (splitOnChar_ne_nil sep s)
      rw [splitOnChar_cons_of_ne hc, splitOnChar_cons_of_ne hc, ih, hs]
      rfl

theorem splitOnChar_of_not_mem {sep : Char} {s : List Char} (h : sep ∉ s) :
    splitOnChar sep s = [s] := by
  induction s with
  | nil => rfl
  | cons c s ih =>
    rw [List.mem_cons, not_or] at h
    rw [splitOnChar_cons_of_ne (Ne.symm h.1), ih h.2]
    rfl

/-- No separator is left in a part. -/
theorem not_mem_of_mem_splitOnChar {sep : Char} {s p : List Char} (h : p ∈ splitOnChar sep s) :
    sep ∉ p := by
  induction s generalizing p with
  | nil =>
    obtain rfl := List.mem_singleton.mp h
    exact List.not_mem_nil
  | cons c s ih =>
    by_cases hc : c = sep
    · subst hc
      rw [splitOnChar_cons_sep] at h
      rcases List.mem_cons.mp h with rfl | h
      · exact List.not_mem_nil
      · exact ih h
    · rw [splitOnChar_cons_of_ne hc] at h
      obtain ⟨t, ts, hs⟩ := List.exists_cons_of_ne_nil (splitOnChar_ne_nil sep s)
      rw [hs] at h ih
      rcases List.mem_cons.mp h with rfl | h
      · rw [List.mem_cons, not_or]
        exact ⟨Ne.symm hc, ih List.mem_cons_self⟩
      · exact ih (List.mem_cons_of_mem t h)

/-- The first line stands in front, each of the others behind a line feed. -/
theorem unlines_cons (s : List Char) (ts : List (List Char)) :
    unlines (s :: ts) = s ++ ts.flatMap ('\n' :: ·) := joinWith_cons ['\n'] s ts

/-- The lines of some texts with a line feed between neighbours are the lines of each of them. -/
theorem lines_unlines {ts : List (List Char)} (h : ts ≠ []) :
    lines (unlines ts) = ts.flatMap lines := by
  obtain ⟨s, ts, rfl⟩ := List.exists_cons_of_ne_nil h
  clear h
  induction ts generalizing s with
  | nil => simp [unlines_cons]
  | cons t ts ih =>
    rw [unlines_cons, List.flatMap_cons, List.cons_append, ← unlines_cons, lines,
      splitOnChar_append_sep, List.flatMap_cons, ← ih]
    rfl

/-- Lines with a line feed between neighbours are the lines of the whole. -/
theorem lines_unlines_of_not_mem {ts : List (List Char)} (hne : ts ≠ []) (h : ∀ t ∈ ts, '\n' ∉ t) :
    lines (unlines ts) = ts := by
  have hlines : ts.map lines = ts.map fun t ↦ [t] :=
    List.map_congr_left fun t ht ↦ splitOnChar_of_not_mem (h t ht)
  rw [lines_unlines hne, List.flatMap_def, hlines, ← List.flatMap_def]
  exact List.flatMap_singleton' ts

/-- Texts that are put together of lines, put together, have all these lines. -/
theorem unlines_flatten {tss : List (List (List Char))} (h : [] ∉ tss) :
    unlines (tss.map unlines) = unlines tss.flatten := by
  have htail {tss : List (List (List Char))} (h : [] ∉ tss) :
      (tss.map unlines).flatMap ('\n' :: ·) = tss.flatten.flatMap ('\n' :: ·) := by
    induction tss with
    | nil => rfl
    | cons ts tss ih =>
      rw [List.mem_cons, not_or] at h
      obtain ⟨s, ts, rfl⟩ := List.exists_cons_of_ne_nil (Ne.symm h.1)
      simp [unlines_cons, ih h.2]
  cases tss with
  | nil => rfl
  | cons ts tss =>
    rw [List.mem_cons, not_or] at h
    obtain ⟨s, ts, rfl⟩ := List.exists_cons_of_ne_nil (Ne.symm h.1)
    rw [List.map_cons, unlines_cons, htail h.2, List.flatten_cons, List.cons_append, unlines_cons,
      unlines_cons, List.flatMap_append, List.append_assoc]

/-- A text of which only the line feeds are left has as many lines as before, all empty. -/
theorem lines_filter_feed (s : List Char) :
    lines (s.filter (· == '\n')) = (lines s).map fun _ ↦ [] := by
  induction s with
  | nil => rfl
  | cons c s ih =>
    simp only [lines] at ih ⊢
    by_cases hc : c = '\n'
    · rw [hc, List.filter_cons, if_pos (beq_self_eq_true _), splitOnChar_cons_sep, ih,
        splitOnChar_cons_sep, List.map_cons]
    · obtain ⟨p, ps, hs⟩ := List.exists_cons_of_ne_nil (splitOnChar_ne_nil '\n' s)
      rw [List.filter_cons, if_neg (mt beq_iff_eq.mp hc), ih,
        splitOnChar_cons_of_ne hc, hs]
      rfl

end TextScore.Text
