/-!
# Lines

Only the line feed separates lines: a text with `n` line feeds has `n + 1` lines, of which the last
one may be empty.  So cutting a text into lines and putting the lines together again changes
nothing, and the number of a line is the number of line feeds before it and one.  Reports name these
numbers, which is why every stage before the lines are cut must keep all line feeds.

* `splitOnChar`, `lines` — the parts between the separators, empty ones included.
* `joinWith`, `unlines` — the inverse.
* `numbered` — the lines of a text, numbered from 1.
* `joinWith_splitOnChar` — cutting and joining is the identity.

Both are defined by recursion from the end, so that a character more at the front changes only the
first part; the inverse the other way round, for parts without separators, is in
`TextScore.Proofs.Text.Words`.
-/

namespace TextScore.Text

/-- One character more at the front of the parts that follow it. -/
def splitStep (sep c : Char) (p : List Char × List (List Char)) : List Char × List (List Char) :=
  if c = sep then ([], p.1 :: p.2) else (c :: p.1, p.2)

/-- The parts of a text between the occurrences of a character; there is one part more than
there are occurrences. -/
def splitOnChar (sep : Char) (s : List Char) : List (List Char) :=
  let p := s.foldr (splitStep sep) ([], [])
  p.1 :: p.2

/-- The parts in order with `sep` between neighbours. -/
def joinWith (sep : List Char) (parts : List (List Char)) : List Char :=
  sep.intercalate parts

/-- The lines of a text. -/
def lines (s : List Char) : List (List Char) := splitOnChar '\n' s

/-- The text with the given lines. -/
def unlines (ls : List (List Char)) : List Char := joinWith ['\n'] ls

/-- The lines of a text with their numbers, from 1. -/
def numbered (s : List Char) : List (Nat × List Char) :=
  (lines s).zipIdx 1 |>.map fun p ↦ (p.2, p.1)

/-- A text without the line feed at its end, if it has one. -/
def dropFinalLineFeed (s : List Char) : List Char :=
  if s.getLast? = some '\n' then s.dropLast else s

/-! ## Small lemmas -/

@[simp] theorem splitOnChar_nil (sep : Char) : splitOnChar sep [] = [[]] := rfl

theorem splitOnChar_ne_nil (sep : Char) (s : List Char) : splitOnChar sep s ≠ [] := by
  simp [splitOnChar]

theorem splitOnChar_cons_sep (sep : Char) (s : List Char) :
    splitOnChar sep (sep :: s) = [] :: splitOnChar sep s := by
  simp [splitOnChar, splitStep]

theorem splitOnChar_cons_of_ne {sep c : Char} (h : c ≠ sep) (s : List Char) :
    splitOnChar sep (c :: s) =
      (c :: (splitOnChar sep s).headD []) :: (splitOnChar sep s).tail := by
  simp [splitOnChar, splitStep, h]

/-- There is one part more than there are separators. -/
theorem length_splitOnChar (sep : Char) (s : List Char) :
    (splitOnChar sep s).length = s.count sep + 1 := by
  induction s with
  | nil => rfl
  | cons c s ih =>
    by_cases h : c = sep
    · subst h
      rw [splitOnChar_cons_sep, List.length_cons, ih, List.count_cons_self]
    · rw [splitOnChar_cons_of_ne h, List.length_cons, List.length_tail, ih,
        List.count_cons_of_ne h]
      rfl

/-- Joining the parts gives the text back. -/
theorem joinWith_splitOnChar (sep : Char) (s : List Char) :
    joinWith [sep] (splitOnChar sep s) = s := by
  induction s with
  | nil => rfl
  | cons c s ih =>
    have hs : splitOnChar sep s = (splitOnChar sep s).headD [] :: (splitOnChar sep s).tail := by
      cases h : splitOnChar sep s with
      | nil => exact absurd h (splitOnChar_ne_nil sep s)
      | cons a as => rfl
    by_cases h : c = sep
    · subst h
      rw [splitOnChar_cons_sep]
      rw [hs] at ih ⊢
      simpa [joinWith, List.intercalate, List.intersperse] using ih
    · rw [splitOnChar_cons_of_ne h]
      rw [hs] at ih
      cases ht : (splitOnChar sep s).tail with
      | nil => rw [ht] at ih; simpa [joinWith, List.intercalate] using ih
      | cons a as =>
        rw [ht] at ih
        simpa [joinWith, List.intercalate, List.intersperse] using ih

/-- A character of joined parts comes from the separator or from a part. -/
theorem mem_of_mem_joinWith {c : Char} {sep : List Char} {parts : List (List Char)}
    (h : c ∈ joinWith sep parts) : c ∈ sep ∨ ∃ s ∈ parts, c ∈ s := by
  induction parts with
  | nil => simp [joinWith, List.intercalate] at h
  | cons s parts ih =>
    cases parts with
    | nil =>
      right
      exact ⟨s, List.mem_singleton_self s, by simpa [joinWith, List.intercalate] using h⟩
    | cons t parts =>
      have hc : c ∈ s ++ (sep ++ joinWith sep (t :: parts)) := by
        simpa [joinWith, List.intercalate, List.intersperse] using h
      rcases List.mem_append.1 hc with hs | hc
      · exact .inr ⟨s, List.mem_cons_self .., hs⟩
      · rcases List.mem_append.1 hc with hs | hc
        · exact .inl hs
        · rcases ih hc with hs | ⟨u, hu, hc⟩
          · exact .inl hs
          · exact .inr ⟨u, List.mem_cons_of_mem _ hu, hc⟩

end TextScore.Text
