import TextScore.Text.Character

/-!
# Scanning a text for occurrences

Definitions, references, repeat groups, separators and attributes are all found in the same way: one
thing is tried at every position from the left, and after an occurrence the search goes on behind
it, so that occurrences never overlap.  This is done once, for a `Recogniser`, which reads one thing
off the front of a text and shortens the text by it.

* `Recogniser.pieces` — the whole text, cut into occurrences and the characters between them.
* `found`, `fill` — the occurrences among the pieces, and a text with something in their place.
* `Recogniser.find?` — the leftmost occurrence.

A recogniser is told whether a word character stands just before, since some things start only at
the beginning of a word.  An occurrence does not count as part of a word.

That every recogniser shortens its text is a field of the structure, so scanning comes to an end by
its construction.  The equations `piecesOnto_of_some` and `piecesOnto_of_none` are all that the
proofs use of the recursion; what scanning does to a text that is put together of parts is in
`TextScore.Proofs.Text.Scan`.
-/

namespace TextScore.Text

/-- Reads a value off the front of a text and returns what is left, which is shorter.  The flag
says whether a word character stands just before the text. -/
structure Recogniser (α : Type) where
  /-- The value at the front and the rest, or `none` if there is none. -/
  read? : Bool → List Char → Option (α × List Char)
  /-- Reading uses up at least one character. -/
  shortens : ∀ {b s a r}, read? b s = some (a, r) → r.length < s.length

/-- A stretch of a scanned text: a character outside every occurrence, or an occurrence. -/
inductive Piece (α : Type)
  /-- A character outside every occurrence. -/
  | plain (c : Char)
  /-- An occurrence. -/
  | found (value : α)

variable {α : Type}

/-- The occurrences among the pieces. -/
def found (ps : List (Piece α)) : List α :=
  ps.filterMap fun
    | .plain _ => none
    | .found a => some a

/-- The text of the pieces, with `f` giving what stands for an occurrence. -/
def fill (f : α → List Char) (ps : List (Piece α)) : List Char :=
  ps.flatMap fun
    | .plain c => [c]
    | .found a => f a

@[simp] theorem found_nil : found ([] : List (Piece α)) = [] := rfl

@[simp] theorem found_plain (c : Char) (ps : List (Piece α)) :
    found (.plain c :: ps) = found ps := rfl

@[simp] theorem found_found (a : α) (ps : List (Piece α)) :
    found (.found a :: ps) = a :: found ps := rfl

@[simp] theorem fill_nil (f : α → List Char) : fill f [] = [] := rfl

@[simp] theorem fill_plain (f : α → List Char) (c : Char) (ps : List (Piece α)) :
    fill f (.plain c :: ps) = c :: fill f ps := rfl

@[simp] theorem fill_found (f : α → List Char) (a : α) (ps : List (Piece α)) :
    fill f (.found a :: ps) = f a ++ fill f ps := rfl

namespace Recogniser

variable (p : Recogniser α)

/-- The value of the leftmost occurrence. -/
def find? (before : Bool) : List Char → Option α
  | [] => none
  | c :: s =>
    match p.read? before (c :: s) with
    | some (a, _) => some a
    | none => find? (isWord c) s

/-- The pieces of `s` behind the pieces in `acc`, which stand in reverse order. -/
def piecesOnto (acc : List (Piece α)) (before : Bool) : List Char → List (Piece α)
  | [] => acc.reverse
  | c :: s =>
    match h : p.read? before (c :: s) with
    | some (a, r) =>
      have : r.length < (c :: s).length := p.shortens h
      piecesOnto (.found a :: acc) false r
    | none => piecesOnto (.plain c :: acc) (isWord c) s
termination_by s => s.length
decreasing_by
  · assumption
  · exact Nat.lt_succ_self s.length

/-- A text cut into its occurrences and the characters between them, in order. -/
def pieces (s : List Char) : List (Piece α) := p.piecesOnto [] false s

/-! ## Small lemmas -/

@[simp] theorem piecesOnto_nil (acc : List (Piece α)) (before : Bool) :
    p.piecesOnto acc before [] = acc.reverse := by
  rw [piecesOnto]

/-- Behind an occurrence the scan goes on with the rest. -/
theorem piecesOnto_of_some {before : Bool} {c : Char} {s r : List Char} {a : α}
    (acc : List (Piece α)) (h : p.read? before (c :: s) = some (a, r)) :
    p.piecesOnto acc before (c :: s) = p.piecesOnto (.found a :: acc) false r := by
  rw [piecesOnto]
  split
  case h_1 a' r' h' =>
    rw [h] at h'
    cases h'
    rfl
  case h_2 h' => simp [h] at h'

/-- Where nothing occurs, the character itself is a piece. -/
theorem piecesOnto_of_none {before : Bool} {c : Char} {s : List Char}
    (acc : List (Piece α)) (h : p.read? before (c :: s) = none) :
    p.piecesOnto acc before (c :: s) = p.piecesOnto (.plain c :: acc) (isWord c) s := by
  rw [piecesOnto]
  split
  case h_1 a' r' h' => simp [h] at h'
  case h_2 h' => rfl

/-- What was cut off before does not change how the rest is cut. -/
theorem piecesOnto_eq (acc : List (Piece α)) (before : Bool) (s : List Char) :
    p.piecesOnto acc before s = acc.reverse ++ p.piecesOnto [] before s := by
  induction hn : s.length using Nat.strongRecOn generalizing acc before s with
  | ind n ih =>
    cases s with
    | nil => simp
    | cons c s =>
      cases h : p.read? before (c :: s) with
      | none =>
        have hs : s.length < n := by simp [← hn]
        rw [piecesOnto_of_none p _ h, piecesOnto_of_none p _ h, ih _ hs _ _ _ rfl,
          ih _ hs [.plain c] _ _ rfl]
        simp
      | some ar =>
        obtain ⟨a, r⟩ := ar
        have hr : r.length < n := hn ▸ p.shortens h
        rw [piecesOnto_of_some p _ h, piecesOnto_of_some p _ h, ih _ hr _ _ _ rfl,
          ih _ hr [.found a] _ _ rfl]
        simp

theorem piecesOnto_eq_of_some {before : Bool} {c : Char} {s r : List Char} {a : α}
    (h : p.read? before (c :: s) = some (a, r)) :
    p.piecesOnto [] before (c :: s) = .found a :: p.piecesOnto [] false r := by
  rw [piecesOnto_of_some p _ h, piecesOnto_eq]
  rfl

theorem piecesOnto_eq_of_none {before : Bool} {c : Char} {s : List Char}
    (h : p.read? before (c :: s) = none) :
    p.piecesOnto [] before (c :: s) = .plain c :: p.piecesOnto [] (isWord c) s := by
  rw [piecesOnto_of_none p _ h, piecesOnto_eq]
  rfl

end Recogniser

end TextScore.Text
