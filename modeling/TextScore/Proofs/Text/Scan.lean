import TextScore.Text.Scan

/-!
# Occurrences in a text

Where a recogniser does not ask what stands before, scanning is the same wherever it starts.  What
it cuts a text into can then be said one character, or one occurrence, at a time.

A scan is a recursion that skips: behind an occurrence it goes on where the occurrence ends.  So
neither induction on characters nor on lengths fits it, and `scan_induction` has the cases that the
scan has.

## What is here

* `Recogniser.Anywhere` — what stands before does not matter.
* `Recogniser.pieces_of_none`, `Recogniser.pieces_of_some` — the pieces of a text by its front.
* `Recogniser.piecesOnto_append_of_none` — the same by a stretch in which nothing starts.
* `Recogniser.scan_induction` — induction along a scan.
* `Recogniser.found_pieces_eq_nil_iff` — nothing occurs if nothing starts anywhere.
* `Recogniser.fill_pieces_of_eq` — occurrences as they are written give the text back.
-/

set_option autoImplicit false

namespace TextScore.Text

variable {α : Type}

/-- Whether a word character stands behind a text, if `b` says whether one stands in front of it. -/
def wordBehind (b : Bool) (u : List Char) : Bool := (u.getLast?.map isWord).getD b

theorem wordBehind_cons (b : Bool) (c : Char) (u : List Char) :
    wordBehind b (c :: u) = wordBehind (isWord c) u := by
  cases u with
  | nil => rfl
  | cons d u => rw [wordBehind, wordBehind, List.getLast?_cons_cons, List.getLast?_cons]; rfl

theorem wordBehind_false (u : List Char) : wordBehind false u = u.getLast?.any isWord := by
  rw [wordBehind]
  cases u.getLast? <;> rfl

theorem found_flatMap {β : Type} (f : β → List (Piece α)) (bs : List β) :
    found (bs.flatMap f) = bs.flatMap fun b ↦ found (f b) := List.filterMap_flatMap

theorem fill_flatMap {β : Type} (g : α → List Char) (f : β → List (Piece α)) (bs : List β) :
    fill g (bs.flatMap f) = bs.flatMap fun b ↦ fill g (f b) := List.flatMap_assoc

@[simp] theorem found_append (ps qs : List (Piece α)) : found (ps ++ qs) = found ps ++ found qs :=
  List.filterMap_append

@[simp] theorem fill_append (g : α → List Char) (ps qs : List (Piece α)) :
    fill g (ps ++ qs) = fill g ps ++ fill g qs := List.flatMap_append

@[simp] theorem found_map_plain (s : List Char) : found (s.map (Piece.plain (α := α))) = [] := by
  induction s with
  | nil => rfl
  | cons c s ih => exact ih

@[simp] theorem fill_map_plain (g : α → List Char) (s : List Char) :
    fill g (s.map .plain) = s := by
  induction s with
  | nil => rfl
  | cons c s ih => rw [List.map_cons, fill_plain, ih]

namespace Recogniser

variable {p : Recogniser α}

/-- What stands before does not matter. -/
def Anywhere (p : Recogniser α) : Prop := ∀ b s, p.read? b s = p.read? false s

theorem Anywhere.piecesOnto (hp : p.Anywhere) (b : Bool) (s : List Char) :
    p.piecesOnto [] b s = p.pieces s := by
  cases s with
  | nil => rw [pieces, piecesOnto_nil, piecesOnto_nil]
  | cons c s =>
    rw [pieces]
    cases h : p.read? false (c :: s) with
    | none => rw [piecesOnto_eq_of_none p h, piecesOnto_eq_of_none p ((hp b _).trans h)]
    | some ar => rw [piecesOnto_eq_of_some p h, piecesOnto_eq_of_some p ((hp b _).trans h)]

@[simp] theorem pieces_nil : p.pieces [] = [] := piecesOnto_nil p [] false

theorem pieces_of_none (hp : p.Anywhere) {c : Char} {s : List Char}
    (h : p.read? false (c :: s) = none) : p.pieces (c :: s) = .plain c :: p.pieces s := by
  rw [pieces, piecesOnto_eq_of_none p h, hp.piecesOnto]

theorem pieces_of_some {s r : List Char} {a : α} (h : p.read? false s = some (a, r)) :
    p.pieces s = .found a :: p.pieces r := by
  cases s with
  | nil => exact absurd (p.shortens h) (Nat.not_lt_zero _)
  | cons c s => rw [pieces, piecesOnto_eq_of_some p h, pieces]

/-- If nothing starts within the front of a text, all of the front is outside occurrences. -/
theorem piecesOnto_append_of_none {b : Bool} {u r : List Char}
    (h : ∀ v c w, u = v ++ c :: w → p.read? (wordBehind b v) (c :: (w ++ r)) = none) :
    p.piecesOnto [] b (u ++ r) = u.map .plain ++ p.piecesOnto [] (wordBehind b u) r := by
  induction u generalizing b with
  | nil => rfl
  | cons c u ih =>
    have hstep : p.read? b (c :: (u ++ r)) = none := h [] c u rfl
    rw [List.cons_append, piecesOnto_eq_of_none p hstep, List.map_cons, List.cons_append,
      wordBehind_cons, ih]
    intro v d w hu
    rw [← wordBehind_cons b]
    exact h (c :: v) d w (congrArg (c :: ·) hu)

theorem pieces_append_of_none (hp : p.Anywhere) {u r : List Char}
    (h : ∀ v c w, u = v ++ c :: w → p.read? false (c :: (w ++ r)) = none) :
    p.pieces (u ++ r) = u.map .plain ++ p.pieces r := by
  have hcut := p.piecesOnto_append_of_none (b := false) fun v c w hu ↦ (hp _ _).trans (h v c w hu)
  rwa [hp.piecesOnto, hp.piecesOnto] at hcut

/-- What holds of a text holds of it with a character more in front at which nothing starts, and
with an occurrence more in front: then it holds of every text. -/
theorem scan_induction (p : Recogniser α) {motive : List Char → Prop} (nil : motive [])
    (plain : ∀ c s, p.read? false (c :: s) = none → motive s → motive (c :: s))
    (found : ∀ s a r, p.read? false s = some (a, r) → motive r → motive s) (s : List Char) :
    motive s := by
  induction hn : s.length using Nat.strongRecOn generalizing s with
  | ind n ih =>
    cases s with
    | nil => exact nil
    | cons c s =>
      cases h : p.read? false (c :: s) with
      | none => exact plain c s h (ih s.length (by simp [← hn]) s rfl)
      | some ar => exact found _ ar.1 ar.2 h (ih ar.2.length (hn ▸ p.shortens h) ar.2 rfl)

/-- If no replacement is longer than `m`, every occurrence makes a text at most so much longer. -/
theorem length_fill_pieces_le (hp : p.Anywhere) {f : α → List Char} {m : Nat}
    (hf : ∀ a, (f a).length ≤ m) (s : List Char) :
    (fill f (p.pieces s)).length ≤ s.length + m * (found (p.pieces s)).length := by
  induction s using p.scan_induction with
  | nil => simp
  | plain c s h ih =>
    rw [pieces_of_none hp h, fill_plain, found_plain, List.length_cons, List.length_cons]
    omega
  | found s a r h ih =>
    have hlt := p.shortens h
    have ha := hf a
    rw [pieces_of_some h, fill_found, found_found, List.length_append, List.length_cons,
      Nat.mul_succ]
    omega

/-- Nothing occurs in a text if nothing starts anywhere in it. -/
theorem found_pieces_eq_nil_iff (hp : p.Anywhere) {s : List Char} :
    found (p.pieces s) = [] ↔ ∀ t, t <:+ s → p.read? false t = none := by
  induction s with
  | nil =>
    refine ⟨fun _ t ht ↦ ?_, fun _ ↦ by rw [pieces_nil, found_nil]⟩
    rw [List.suffix_nil.mp ht]
    cases h : p.read? false [] with
    | none => rfl
    | some ar => exact absurd (p.shortens h) (Nat.not_lt_zero _)
  | cons c s ih =>
    cases h : p.read? false (c :: s) with
    | none =>
      rw [pieces_of_none hp h, found_plain, ih]
      refine ⟨fun hs t ht ↦ ?_, fun hs t ht ↦ hs t (ht.trans (List.suffix_cons c s))⟩
      rcases List.suffix_cons_iff.mp ht with rfl | ht
      · exact h
      · exact hs t ht
    | some ar =>
      rw [pieces_of_some h, found_found]
      refine ⟨fun hs ↦ absurd hs (List.cons_ne_nil _ _), fun hs ↦ ?_⟩
      rw [hs _ List.suffix_rfl] at h
      cases h

/-- A text in which nothing occurs is left as it is. -/
theorem fill_pieces_of_found_eq_nil (f : α → List Char) (b : Bool) {s : List Char}
    (h : found (p.piecesOnto [] b s) = []) : fill f (p.piecesOnto [] b s) = s := by
  induction s generalizing b with
  | nil => rw [piecesOnto_nil, List.reverse_nil, fill_nil]
  | cons c s ih =>
    cases hread : p.read? b (c :: s) with
    | none =>
      rw [piecesOnto_eq_of_none p hread] at h ⊢
      rw [fill_plain, ih _ h]
    | some ar =>
      rw [piecesOnto_eq_of_some p hread] at h
      cases h

/-- Occurrences as they are written give the text back. -/
theorem fill_pieces_of_eq (p : Recogniser α) {f : α → List Char}
    (hf : ∀ {b s r a}, p.read? b s = some (a, r) → s = f a ++ r) (s : List Char) :
    fill f (p.pieces s) = s := by
  rw [pieces]
  generalize false = b
  induction hn : s.length using Nat.strongRecOn generalizing b s with
  | ind n ih =>
    cases s with
    | nil => rw [piecesOnto_nil]; rfl
    | cons c s =>
      cases h : p.read? b (c :: s) with
      | none =>
        rw [piecesOnto_eq_of_none p h, fill_plain, ih s.length (by simp [← hn]) _ _ rfl]
      | some ar =>
        rw [piecesOnto_eq_of_some p h, fill_found, ih ar.2.length (hn ▸ p.shortens h) _ _ rfl,
          ← hf h]

end Recogniser

end TextScore.Text
