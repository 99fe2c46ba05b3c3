import TextScore.Fault
import TextScore.Journal
import TextScore.Text.Character
import TextScore.Text.Line
import TextScore.Text.Scan

/-!
# Repeat groups

`{ body } x N` and `{ body } * N` stand for `N` copies of the body.  Groups may be nested.  They are
not parsed as such: the innermost groups are expanded first, in passes over the whole text, until no
group is left.  What a text means is therefore what the passes leave of it, and that the passes
agree with reading it as a nest of groups is a theorem, in `TextScore.Proofs.Repeat.Phrase`.

A group that would grow too long is cut down to fewer copies and reported.  The bound is on a single
group; how long a whole text can become is in `TextScore.Proofs.Repeat.Pass`.

* `Repeat.Group` — a group without braces inside, which its type says.
* `Repeat.expand` — a text without repeat groups.

An expanded group has no braces left, so a pass removes an opening brace for every group it expands
and adds none.  `openings_expandInnermost` counts them, and the recursion of `expand` is on that
count.
-/

namespace TextScore.Repeat

open Text Number

/-- A text cannot grow beyond this by one group. -/
def maxLength : Nat := 100000

/-- A brace. -/
def isBrace (c : Char) : Bool := c == '{' || c == '}'

/-- A repeat group without braces in its body. -/
structure Group where
  /-- What is repeated. -/
  body : List Char
  /-- The digits of the count. -/
  count : List Char
  /-- There is no group inside. -/
  innermost : ∀ c ∈ body, isBrace c = false

namespace Group

/-- A mark that starts a count. -/
def isTimes (c : Char) : Bool := c == 'x' || c == 'X' || c == '*'

/-- Reads the times mark and the count behind a closing brace. -/
def readCount? (s : List Char) : Option (List Char × List Char) :=
  match s.dropWhile isBlank with
  | c :: s =>
    let s := s.dropWhile isBlank
    let ds := s.takeWhile isDigit
    if isTimes c && !ds.isEmpty then some (ds, s.dropWhile isDigit) else none
  | [] => none

/-- Reads a group off the front of a text. -/
def read? : List Char → Option (Group × List Char)
  | '{' :: s =>
    match s.dropWhile fun c ↦ !isBrace c with
    | '}' :: t =>
      (readCount? t).map fun p ↦
        (⟨s.takeWhile fun c ↦ !isBrace c, p.1, fun c h ↦ by
          simpa using List.all_eq_true.1 (List.all_takeWhile ..) c h⟩, p.2)
    | _ => none
  | _ => none

/-- The count as a number. -/
def times (g : Group) : Nat := digitsValue g.count

/-- The body without the blanks around it. -/
def core (g : Group) : List Char := trim g.body

/-- The largest count that is carried out in full. -/
def limit (g : Group) : Nat := maxLength / (g.core.length + 1)

/-- The copies of the body, with single spaces between them. -/
def expansion (g : Group) : List Char :=
  joinWith [' '] (List.replicate (min g.times g.limit) g.core)

/-- Reads the count, and reports one that is too large. -/
def check (g : Group) : Noted Problem Unit := do
  let n ← Noted.ofExcept (readNat g.count)
  if n > g.limit then note (.repeatTooLarge n g.limit)

end Group

/-! ## Every expansion takes an opening brace away

The lemmas follow the reading of a group from its inside out: dropping anything but an opening brace
keeps the count, and a group has exactly the one it starts with. -/

/-- How many opening braces a text has. -/
def openings (s : List Char) : Nat := s.count '{'

theorem openings_dropWhile (p : Char → Bool) (h : p '{' = false) (s : List Char) :
    openings (s.dropWhile p) = openings s := by
  have hz : (s.takeWhile p).count '{' = 0 := by
    refine List.count_eq_zero_of_not_mem fun hm ↦ ?_
    have := List.all_eq_true.1 (List.all_takeWhile ..) _ hm
    simp [h] at this
  have hs := congrArg (List.count '{') (s.takeWhile_append_dropWhile (p := p))
  rw [List.count_append, hz, Nat.zero_add] at hs
  exact hs

theorem openings_cons_of_ne {c : Char} (h : c ≠ '{') (s : List Char) :
    openings (c :: s) = openings s :=
  List.count_cons_of_ne h

theorem Group.readCount?_openings {s ds r : List Char} (h : readCount? s = some (ds, r)) :
    openings r = openings s := by
  unfold readCount? at h
  split at h
  case h_1 c t ht =>
    dsimp only at h
    split at h
    case isTrue hc =>
      cases h
      have hne : c ≠ '{' := by
        rintro rfl
        simp [isTimes] at hc
      rw [openings_dropWhile _ (by decide), openings_dropWhile _ (by decide),
        ← openings_cons_of_ne hne, ← ht, openings_dropWhile _ (by decide)]
    case isFalse => simp at h
  case h_2 => simp at h

theorem Group.readCount?_length {s ds r : List Char} (h : readCount? s = some (ds, r)) :
    r.length ≤ s.length := by
  unfold readCount? at h
  split at h
  case h_1 c t ht =>
    dsimp only at h
    split at h
    case isTrue =>
      cases h
      have e₁ := (List.dropWhile_suffix isBlank (l := s)).length_le
      have e₂ := (List.dropWhile_suffix isBlank (l := t)).length_le
      have e₃ := (List.dropWhile_suffix isDigit (l := t.dropWhile isBlank)).length_le
      rw [ht, List.length_cons] at e₁
      omega
    case isFalse => simp at h
  case h_2 => simp at h

theorem Group.read?_openings {s r : List Char} {g : Group} (h : read? s = some (g, r)) :
    openings s = openings r + 1 := by
  unfold read? at h
  split at h
  case h_1 s =>
    split at h
    case h_1 t ht =>
      obtain ⟨⟨ds, u⟩, hu, hg⟩ := Option.map_eq_some_iff.1 h
      cases hg
      have e₁ := readCount?_openings hu
      have e₂ := openings_dropWhile (fun c ↦ !isBrace c) (by decide) s
      rw [ht, openings_cons_of_ne (by decide)] at e₂
      rw [e₁, e₂, openings, List.count_cons_self]
      rfl
    case h_2 => simp at h
  case h_2 => simp at h

theorem Group.read?_length {s r : List Char} {g : Group} (h : read? s = some (g, r)) :
    r.length < s.length := by
  unfold read? at h
  split at h
  case h_1 s =>
    split at h
    case h_1 t ht =>
      obtain ⟨⟨ds, u⟩, hu, hg⟩ := Option.map_eq_some_iff.1 h
      cases hg
      have e₁ := readCount?_length hu
      have e₂ := (List.dropWhile_suffix (fun c ↦ !isBrace c) (l := s)).length_le
      rw [ht, List.length_cons] at e₂
      rw [List.length_cons]
      dsimp only
      omega
    case h_2 => simp at h
  case h_2 => simp at h

/-- Finds repeat groups. -/
def Group.recogniser : Recogniser Group where
  read? _ s := read? s
  shortens := read?_length

/-- The text after one pass: every innermost group is written out. -/
def expandInnermost (ps : List (Piece Group)) : List Char := fill Group.expansion ps

theorem Group.openings_expansion (g : Group) : openings g.expansion = 0 := by
  refine List.count_eq_zero_of_not_mem fun hm ↦ ?_
  rcases mem_of_mem_joinWith hm with hm | ⟨s, hs, hm⟩
  · simp at hm
  · rw [(List.mem_replicate.1 hs).2] at hm
    have := g.innermost '{' (mem_of_mem_trim hm)
    simp [isBrace] at this

/-- A pass removes as many opening braces as it finds groups. -/
theorem openings_expandInnermost (before : Bool) (s : List Char) :
    openings (expandInnermost (Group.recogniser.piecesOnto [] before s)) +
      (found (Group.recogniser.piecesOnto [] before s)).length = openings s := by
  induction hn : s.length using Nat.strongRecOn generalizing before s with
  | ind n ih =>
    cases s with
    | nil => simp [expandInnermost, openings]
    | cons c s =>
      cases h : Group.recogniser.read? before (c :: s) with
      | none =>
        have := ih s.length (by simp [← hn]) (isWord c) s rfl
        rw [Recogniser.piecesOnto_eq_of_none _ h]
        simp only [expandInnermost, fill_plain, found_plain, openings, List.count_cons] at this ⊢
        omega
      | some gr =>
        obtain ⟨g, r⟩ := gr
        have := ih r.length (hn ▸ Group.recogniser.shortens h) false r rfl
        have e₁ := g.openings_expansion
        have e₂ := Group.read?_openings h
        rw [Recogniser.piecesOnto_eq_of_some _ h]
        simp only [expandInnermost, fill_found, found_found, openings, List.count_append,
          List.length_cons] at this e₁ e₂ ⊢
        omega

/-- Expands repeat groups until none is left. -/
def expand (s : List Char) : Noted Problem (List Char) :=
  let ps := Group.recogniser.pieces s
  if _h : found ps = [] then pure s
  else do
    (found ps).forM Group.check
    expand (expandInnermost ps)
termination_by openings s
decreasing_by
  have e := openings_expandInnermost false s
  have := List.length_pos_iff.2 _h
  simp only [Recogniser.pieces, ps] at this ⊢
  omega

end TextScore.Repeat
