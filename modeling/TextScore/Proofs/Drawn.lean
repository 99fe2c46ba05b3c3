import Mathlib.Data.List.Infix
import TextScore.OrderedMap
import TextScore.Proofs.Number.Layout
import TextScore.Proofs.Outcome
import TextScore.Proofs.Text.Scan
import TextScore.Text.Character
import TextScore.Text.Line

/-!
# Where the characters of a text come from

Scores are taken apart, and what is shown of them is put together from the parts and from words of
the program.  So a character that is shown is one of the score, or one of the few that the program
writes by itself.

What this is for is encoding.  A MIDI file has bytes for few characters, and whether all texts of a
score can be written is to be read off the score itself, and not off what the compiler makes of it.
The argument has nothing to do with meaning and goes through every stage in the same way: parts of a
text have its characters, and joining texts adds none.  `DrawnFrom` is the relation, closed under
all of these operations, and the modules named `Drawn` carry it through the stages.

## What is here

* `isCommon` — the characters that the program writes by itself.
* `DrawnFrom` — every character of a text is one of the source, or common.
* `trim_subset`, `subset_of_mem_words` and others — parts have no other characters than the whole.
* `Recogniser.pieces_cases` — the pieces of a text are its characters and what is read in it.
* `Problem.texts` — the texts of the score in a problem.
* `Problem.Drawn.message` — a message is drawn from where these are.
* `Pass.Draws` — what a pass reports and yields is drawn from a source.
-/

set_option autoImplicit false

namespace TextScore.Text

/-! ## Where the characters of a text come from

The source is a text and stays the same throughout; what changes is the text that is drawn from
it. -/

/-- A common character: one that ASCII prints, or the line feed. -/
def isCommon (c : Char) : Bool := c == '\n' || (0x20 ≤ c.toNat && c.toNat < 0x7F)

/-- Every character of a text is one of the source, or common. -/
def DrawnFrom (src s : List Char) : Prop := ∀ c ∈ s, c ∈ src ∨ isCommon c = true

namespace DrawnFrom

variable {src s t : List Char}

theorem refl (src : List Char) : DrawnFrom src src := fun _ ↦ .inl

/-- Parts are drawn from where the whole is. -/
theorem subset (h : DrawnFrom src t) (hst : s ⊆ t) : DrawnFrom src s := fun c hc ↦ h c (hst hc)

theorem of_common (h : s.all isCommon = true) : DrawnFrom src s :=
  fun c hc ↦ .inr (List.all_eq_true.mp h c hc)

theorem nil : DrawnFrom src [] := of_common rfl

theorem cons {c : Char} (hc : c ∈ src ∨ isCommon c = true) (hs : DrawnFrom src s) :
    DrawnFrom src (c :: s) :=
  List.forall_mem_cons.mpr ⟨hc, hs⟩

theorem append (hs : DrawnFrom src s) (ht : DrawnFrom src t) : DrawnFrom src (s ++ t) :=
  List.forall_mem_append.mpr ⟨hs, ht⟩

theorem replicate (n : Nat) {c : Char} (hc : c ∈ src ∨ isCommon c = true) :
    DrawnFrom src (List.replicate n c) := fun d hd ↦ by
  rw [List.eq_of_mem_replicate hd]
  exact hc

theorem joinWith {sep : List Char} (hsep : DrawnFrom src sep) {parts : List (List Char)}
    (h : ∀ s ∈ parts, DrawnFrom src s) : DrawnFrom src (joinWith sep parts) := fun c hc ↦ by
  rcases mem_of_mem_joinWith hc with hc | ⟨s, hs, hc⟩
  · exact hsep c hc
  · exact h s hs c hc

theorem unlines {ls : List (List Char)} (h : ∀ l ∈ ls, DrawnFrom src l) :
    DrawnFrom src (unlines ls) :=
  joinWith (of_common rfl) h

end DrawnFrom

/-! ### Parts of a text -/

theorem takeWhile_subset (p : Char → Bool) (s : List Char) : s.takeWhile p ⊆ s :=
  (List.takeWhile_prefix p).subset

theorem dropWhile_subset (p : Char → Bool) (s : List Char) : s.dropWhile p ⊆ s :=
  (List.dropWhile_suffix p).subset

theorem trim_subset (s : List Char) : trim s ⊆ s := fun _ ↦ mem_of_mem_trim

theorem dropKeyword?_subset {k s r : List Char} (h : dropKeyword? k s = some r) : r ⊆ s := by
  rw [dropKeyword?_eq_drop h]
  exact List.drop_subset _ s

theorem dropFinalLineFeed_subset (s : List Char) : dropFinalLineFeed s ⊆ s := by
  rw [dropFinalLineFeed]
  split
  · exact List.dropLast_subset s
  · exact List.Subset.refl s

theorem subset_of_mem_splitOnChar {sep : Char} {s p : List Char} (h : p ∈ splitOnChar sep s) :
    p ⊆ s := by
  induction s generalizing p with
  | nil =>
    obtain rfl := List.mem_singleton.mp h
    exact List.Subset.refl []
  | cons c s ih =>
    by_cases hc : c = sep
    · rw [hc, splitOnChar_cons_sep] at h
      rcases List.mem_cons.mp h with rfl | h
      · exact List.nil_subset _
      · exact List.subset_cons_of_subset c (ih h)
    · rw [splitOnChar_cons_of_ne hc] at h
      obtain ⟨q, qs, hsplit⟩ := List.exists_cons_of_ne_nil (splitOnChar_ne_nil sep s)
      rw [hsplit] at h ih
      rcases List.mem_cons.mp h with rfl | h
      · exact List.cons_subset_cons c (ih List.mem_cons_self)
      · exact List.subset_cons_of_subset c (ih (List.mem_cons_of_mem q h))

theorem subset_of_mem_numbered {s : List Char} {l : Nat × List Char} (h : l ∈ numbered s) :
    l.2 ⊆ s := by
  obtain ⟨p, hp, rfl⟩ := List.mem_map.mp h
  exact subset_of_mem_splitOnChar (List.fst_mem_of_mem_zipIdx hp)

/-- What is under way and what is finished when words are cut off the end of a text. -/
theorem foldr_wordStep_subset (s : List Char) :
    (s.foldr wordStep ([], [])).1 ⊆ s ∧ ∀ w ∈ (s.foldr wordStep ([], [])).2, w ⊆ s := by
  induction s with
  | nil => exact ⟨List.Subset.refl [], fun w hw ↦ absurd hw List.not_mem_nil⟩
  | cons c s ih =>
    have hdone : ∀ w ∈ (s.foldr wordStep ([], [])).2, w ⊆ c :: s :=
      fun w hw ↦ List.subset_cons_of_subset c (ih.2 w hw)
    rw [List.foldr_cons, wordStep]
    split
    · refine ⟨List.nil_subset _, ?_⟩
      dsimp only
      split
      · exact hdone
      · exact List.forall_mem_cons.mpr ⟨List.subset_cons_of_subset c ih.1, hdone⟩
    · exact ⟨List.cons_subset_cons c ih.1, hdone⟩

theorem subset_of_mem_words {s w : List Char} (h : w ∈ words s) : w ⊆ s := by
  obtain ⟨hcurrent, hdone⟩ := foldr_wordStep_subset s
  rw [words] at h
  split at h
  · exact hdone w h
  · rcases List.mem_cons.mp h with rfl | h
    · exact hcurrent
    · exact hdone w h

/-! ### Pieces of a text -/

variable {α : Type}

theorem mem_found {ps : List (Piece α)} {a : α} : a ∈ found ps ↔ .found a ∈ ps := by
  rw [found, List.mem_filterMap]
  constructor
  · rintro ⟨p, hp, h⟩
    cases p <;> cases h
    exact hp
  · intro h
    exact ⟨_, h, rfl⟩

namespace Recogniser

variable {p : Recogniser α}

/-- If what is left behind an occurrence is part of the text, the pieces of a text are characters
of it and occurrences that are read off parts of it. -/
theorem pieces_cases (hp : ∀ {b s a r}, p.read? b s = some (a, r) → r ⊆ s) {s : List Char}
    {x : Piece α} (hx : x ∈ p.pieces s) :
    (∃ c ∈ s, x = .plain c) ∨ ∃ b t a r, t ⊆ s ∧ p.read? b t = some (a, r) ∧ x = .found a := by
  rw [pieces] at hx
  generalize false = b at hx
  induction hn : s.length using Nat.strongRecOn generalizing b s with
  | ind n ih =>
    cases s with
    | nil =>
      rw [piecesOnto_nil] at hx
      exact absurd hx List.not_mem_nil
    | cons c s =>
      -- what is known of the pieces of a shorter text holds of the longer one
      have hlift {t : List Char} (ht : t ⊆ c :: s) (h : (∃ c ∈ t, x = .plain c) ∨
          ∃ b u a r, u ⊆ t ∧ p.read? b u = some (a, r) ∧ x = .found a) :
          (∃ d ∈ c :: s, x = .plain d) ∨
            ∃ b u a r, u ⊆ c :: s ∧ p.read? b u = some (a, r) ∧ x = .found a := by
        obtain ⟨d, hd, h⟩ | ⟨b, u, a, r, hu, h⟩ := h
        · exact .inl ⟨d, ht hd, h⟩
        · exact .inr ⟨b, u, a, r, List.Subset.trans hu ht, h⟩
      cases h : p.read? b (c :: s) with
      | none =>
        rw [piecesOnto_eq_of_none p h] at hx
        rcases List.mem_cons.mp hx with rfl | hx
        · exact .inl ⟨c, List.mem_cons_self, rfl⟩
        · exact hlift (List.subset_cons_self c s) (ih s.length (by simp [← hn]) _ hx rfl)
      | some ar =>
        rw [piecesOnto_eq_of_some p h] at hx
        rcases List.mem_cons.mp hx with rfl | hx
        · exact .inr ⟨b, _, ar.1, ar.2, List.Subset.refl _, h, rfl⟩
        · exact hlift (hp h) (ih ar.2.length (hn ▸ p.shortens h) _ hx rfl)

/-- What occurs in a text is read off a part of it. -/
theorem exists_of_mem_found (hp : ∀ {b s a r}, p.read? b s = some (a, r) → r ⊆ s) {s : List Char}
    {a : α} (h : a ∈ found (p.pieces s)) : ∃ b t r, t ⊆ s ∧ p.read? b t = some (a, r) := by
  obtain ⟨c, -, hx⟩ | ⟨b, t, a', r, ht, hread, hx⟩ := pieces_cases hp (mem_found.mp h)
  · cases hx
  · cases hx
    exact ⟨b, t, r, ht, hread⟩

/-- A text with something in place of its occurrences. -/
theorem drawnFrom_fill {src s : List Char}
    (hp : ∀ {b s a r}, p.read? b s = some (a, r) → r ⊆ s) (hs : DrawnFrom src s)
    {f : α → List Char} (hf : ∀ a ∈ found (p.pieces s), DrawnFrom src (f a)) :
    DrawnFrom src (fill f (p.pieces s)) := by
  intro c hc
  obtain ⟨x, hx, hc⟩ := List.mem_flatMap.mp hc
  obtain ⟨d, hd, rfl⟩ | ⟨b, t, a, r, -, -, rfl⟩ := pieces_cases hp hx
  · rw [List.mem_singleton.mp hc]
    exact hs d hd
  · exact hf a (mem_found.mpr hx) c hc

end Recogniser

end TextScore.Text

namespace TextScore

open Text Number

/-! ## What problems say

The message of a problem has words of the program, numbers, and texts of the score.  The words and
the numbers are common, so only the texts have to be followed. -/

variable {src : List Char} {α : Type}

/-! ### Maps -/

/-- What holds of all values of a map and of one value more holds of all values with it. -/
theorem OrderedMap.forall_put {β : Type} {P : β → Prop} {m : OrderedMap β}
    (h : ∀ k v, m.get? k = some v → P v) {k₁ : String} {v₁ : β} (h₁ : P v₁) (k : String) (v : β)
    (hk : (m.put k₁ v₁).get? k = some v) : P v := by
  by_cases hkey : k = k₁
  · rw [hkey, get?_put_self] at hk
    cases hk
    exact h₁
  · rw [get?_put_of_ne hkey] at hk
    exact h k v hk

/-! ### Loops -/

/-- Whatever a loop has made of the items of a list is made of one of them. -/
theorem exists_of_mem_mapM {β ε : Type} {f : α → Except ε β} {as : List α} {bs : List β}
    (h : as.mapM f = .ok bs) {b : β} (hb : b ∈ bs) : ∃ a ∈ as, f a = .ok b := by
  have hall := mapM_ok h
  clear h
  induction hall with
  | nil => exact absurd hb List.not_mem_nil
  | @cons a b' as bs ha _ ih =>
    rcases List.mem_cons.mp hb with rfl | hb
    · exact ⟨a, List.mem_cons_self, ha⟩
    · obtain ⟨a', ha', hf⟩ := ih hb
      exact ⟨a', List.mem_cons_of_mem a ha', hf⟩

/-! ### Numbers -/

theorem all_isCommon_numeralChars : numeralChars.all isCommon = true := by decide

theorem drawnFrom_of_numeral {s : List Char} (h : ∀ c ∈ s, c ∈ numeralChars) : DrawnFrom src s :=
  fun c hc ↦ .inr (List.all_eq_true.mp all_isCommon_numeralChars c (h c hc))

theorem drawnFrom_digits (n : Nat) : DrawnFrom src (digits n) :=
  drawnFrom_of_numeral fun _ ↦ mem_numeralChars_of_mem_digits

theorem drawnFrom_signedDigits (n : Int) : DrawnFrom src (signedDigits n) :=
  drawnFrom_of_numeral fun _ ↦ mem_numeralChars_of_mem_signedDigits

/-! ### Problems -/

namespace Problem

/-- The texts of the score that a problem names. -/
def texts : Problem → List String
  | undefinedMacro name => [name]
  | shiftIgnored name => [name]
  | undeclaredInstrument id => [id]
  | invalidTranspose value id => [value, id]
  | declaredAgain id => [id]
  | ignoredTempo value => [value]
  | unrecognisedLine line => [line]
  | unknownDuration code => [code]
  | unknownGrid code => [code]
  | unrecognisedPitch text _ => [text]
  | ignoredToken text => [text]
  | _ => []

/-- The texts that a problem names are drawn from a source. -/
def Drawn (src : List Char) (p : Problem) : Prop := ∀ t ∈ p.texts, DrawnFrom src t.toList

theorem drawnFrom_number (n : Int) : DrawnFrom src (number n).toList := by
  rw [number, String.toList_ofList]
  exact drawnFrom_signedDigits n

/-- All else in a message is words of the program, and numbers. -/
theorem Drawn.message {p : Problem} (h : p.Drawn src) : DrawnFrom src p.message.toList := by
  have hword {s : String} (hs : s.toList.all isCommon = true) : DrawnFrom src s.toList :=
    .of_common hs
  delta Problem.message
  cases p
  all_goals
    simp only [Drawn, texts, List.forall_mem_cons] at h
    simp only [String.toList_append]
  case undefinedMacro | shiftIgnored | undeclaredInstrument | declaredAgain | unrecognisedLine |
      unknownDuration | unknownGrid | ignoredToken =>
    exact ((hword (by decide)).append h.1).append (hword (by decide))
  case ignoredTempo => exact (hword (by decide)).append h.1
  case repeatTooLarge =>
    exact (((hword (by decide)).append (drawnFrom_number _)).append (hword (by decide))).append
      (drawnFrom_number _)
  case invalidTranspose =>
    exact ((((hword (by decide)).append h.1).append (hword (by decide))).append h.2.1).append
      (hword (by decide))
  case ignoredTimeSignature =>
    exact (((hword (by decide)).append (drawnFrom_number _)).append (hword (by decide))).append
      (drawnFrom_number _)
  case reversedRange =>
    exact (((((hword (by decide)).append (drawnFrom_number _)).append (hword (by decide))).append
      (drawnFrom_number _)).append (hword (by decide))).append (drawnFrom_number _)
  case unrecognisedPitch =>
    exact (((hword (by decide)).append h.1).append (hword (by decide))).append (drawnFrom_number _)
  case staffLineTooEarly | noPlayableNotes => exact hword (by decide)

end Problem

/-! ### Passes -/

/-- The texts that a problem names are drawn from a source; of other entries nothing is said. -/
def Entry.Drawn (src : List Char) : Entry → Prop
  | problem _ p => p.Drawn src
  | _ => True

/-- The problems that a pass reports name texts from a source, and what it yields satisfies `Q`. -/
def Pass.Draws (src : List Char) (Q : α → Prop) (x : Pass α) : Prop :=
  Noted.Ensures (Entry.Drawn src) Q x

/-- Problems on a line are reported at the line. -/
theorem Pass.draws_atLine {line : Nat} {Q : α → Prop} {x : Noted Problem α}
    (h : x.Ensures (Problem.Drawn src) Q) : (atLine line x).Draws src Q :=
  Noted.Ensures.mapNotes (g := Entry.problem line) (fun _ hp ↦ hp) h

end TextScore
