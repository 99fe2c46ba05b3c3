import TextScore.Proofs.Token.Cut

/-!
# Places in a line

Where a place in a line stands can be told without cutting the line: how many brackets are open,
which mark an annotation waits for, and whether a token is under way.  The cutting drops the blanks
that stand outside of brackets and annotations, and nothing else.

`Spot` is that knowledge.  It is less than the state of the cutting, as it holds no tokens, and it
is computed from the text alone.  So it can be used in statements about what the cutting does
without speaking of the cutting: what is kept of a line, and which bars are tokens.

## What is here

* `Spot` — where a place stands.
* `Spot.kept` — a text without the blanks that stand outside.
* `Cutting.step_cases` — what one character does: it ends a token, is a bar, or is pushed.
* `flatten_splitTokens` — the tokens together are what is kept of a line.
* `splitTokens_barline` — a bar outside is a token of its own.
-/

set_option autoImplicit false

namespace TextScore

open Text

/-- A text without its blanks. -/
def visible (s : List Char) : List Char := s.filter fun c ↦ !isBlank c

@[simp] theorem visible_append (s t : List Char) : visible (s ++ t) = visible s ++ visible t :=
  List.filter_append s t

theorem visible_cons (c : Char) (s : List Char) :
    visible (c :: s) = if isBlank c then visible s else c :: visible s := by
  cases hc : isBlank c <;> simp [visible, hc]

/-- Where a place in a line stands. -/
structure Spot where
  /-- How many brackets are open. -/
  depth : Nat
  /-- The mark that an annotation waits for. -/
  closer? : Option Char
  /-- A token is under way. -/
  isWithin : Bool

namespace Spot

/-- In front of the line. -/
def start : Spot := ⟨0, none, false⟩

/-- No bracket is open, and no annotation. -/
def IsOutside (p : Spot) : Prop := p.depth = 0 ∧ p.closer? = none

instance (p : Spot) : Decidable p.IsOutside :=
  inferInstanceAs (Decidable (p.depth = 0 ∧ p.closer? = none))

/-- The mark that an annotation waits for, if the character starts one: it needs the mark to be
among the characters behind it. -/
def opens? (p : Spot) (c : Char) (rest : List Char) : Option Char :=
  if p.depth = 0 ∧ p.isWithin = false then
    (annotationCloser? c).filter fun mark ↦ rest.contains mark
  else none

/-- The place behind one more character, given the characters behind it. -/
def next (p : Spot) (c : Char) (rest : List Char) : Spot :=
  match p.closer? with
  | some mark => ⟨p.depth, if c = mark then none else some mark, true⟩
  | none =>
    match p.opens? c rest with
    | some mark => ⟨p.depth, some mark, true⟩
    | none =>
      let depth := Cutting.depthAfter p.depth c
      ⟨depth, none, depth != 0 || !(isBlank c || c == '|')⟩

/-- The place behind a text, with the rest of the line still to come. -/
def behind (p : Spot) : List Char → List Char → Spot
  | [], _ => p
  | c :: s, r => (p.next c (s ++ r)).behind s r

/-- What is left of a text without the blanks that stand outside. -/
def kept (p : Spot) : List Char → List Char
  | [] => []
  | c :: s =>
    if p.IsOutside ∧ isBlank c = true then (p.next c s).kept s else c :: (p.next c s).kept s

/-- Only blanks are left out. -/
theorem visible_kept (p : Spot) (s : List Char) : visible (p.kept s) = visible s := by
  induction s generalizing p with
  | nil => rfl
  | cons c s ih =>
    rw [kept, visible_cons]
    split
    case isTrue h => rw [ih, if_pos h.2]
    case isFalse => rw [visible_cons, ih]

end Spot

/-! ## What one character does

`step_cases` is the one place where the step of the cutting is taken apart; everything about runs is
proved from its three cases. -/

namespace Cutting

variable {k : Cutting} {c : Char} {r : List Char}

/-- Where the cutting stands. -/
def spot (k : Cutting) : Spot := ⟨k.depth, k.closer, !k.current.isEmpty⟩

theorem flush_eq_fresh (h : k.spot.IsOutside) : k.flush = fresh k.flush.done := by
  obtain ⟨done, current, depth, closer⟩ := k
  obtain ⟨rfl, rfl⟩ := h
  cases current <;> rfl

/-- An ordinary character outside ends the token under way if it is a blank, and is a token if it is
a bar.  Every other one is pushed. -/
theorem stepPlain_cases (k : Cutting) (c : Char) :
    (k.depth = 0 ∧ isBlank c = true ∧ k.stepPlain c = k.flush) ∨
    (k.depth = 0 ∧ isBlank c = false ∧ c = '|' ∧
      k.stepPlain c = { k.flush with done := [c] :: k.flush.done }) ∨
    (¬(k.depth = 0 ∧ (isBlank c = true ∨ c = '|')) ∧
      k.stepPlain c = ⟨k.done, c :: k.current, depthAfter k.depth c, k.closer⟩) := by
  obtain ⟨done, current, depth, closer⟩ := k
  rw [stepPlain]
  by_cases hc : isBlank c = true ∨ c = '|'
  · rw [(separator hc).2]
    by_cases hdepth : depth = 0
    · by_cases hblank : isBlank c = true <;> simp_all
    · simp [hdepth, push]
  · rw [not_or] at hc
    simp [hc, push]

/-- A character outside ends the token under way if it is a blank, and is a token if it is a bar.
Every other character is pushed. -/
theorem step_cases (k : Cutting) (c : Char) (r : List Char) :
    (k.spot.IsOutside ∧ isBlank c = true ∧ k.step c r = k.flush) ∨
    (k.spot.IsOutside ∧ c = '|' ∧ k.step c r = fresh ([c] :: k.flush.done)) ∨
    (¬(k.spot.IsOutside ∧ (isBlank c = true ∨ c = '|')) ∧
      ∃ depth closer, k.step c r = ⟨k.done, c :: k.current, depth, closer⟩) := by
  by_cases h : k.spot.IsOutside ∧ (isBlank c = true ∨ c = '|')
  · obtain ⟨⟨hdepth, hcloser⟩, hc⟩ := h
    have hplain : k.step c r = k.stepPlain c :=
      step_plain hcloser (opens?_of_annotationCloser?_eq_none (separator hc).1)
    rw [hplain]
    obtain ⟨-, hblank, h⟩ | ⟨-, -, hbar, h⟩ | ⟨hnot, -⟩ := k.stepPlain_cases c
    · exact .inl ⟨⟨hdepth, hcloser⟩, hblank, h⟩
    · refine .inr (.inl ⟨⟨hdepth, hcloser⟩, hbar, ?_⟩)
      rw [h, flush_eq_fresh ⟨hdepth, hcloser⟩]
      rfl
    · exact absurd ⟨hdepth, hc⟩ hnot
  -- all other steps add the character to the token
  · refine .inr (.inr ⟨h, ?_⟩)
    rw [step]
    split
    · exact ⟨_, _, rfl⟩
    split
    · exact ⟨_, _, rfl⟩
    rename_i hcloser _ _
    obtain ⟨hdepth, hblank, -⟩ | ⟨hdepth, -, hbar, -⟩ | ⟨-, hpush⟩ := k.stepPlain_cases c
    · exact absurd ⟨⟨hdepth, hcloser⟩, .inl hblank⟩ h
    · exact absurd ⟨⟨hdepth, hcloser⟩, .inr hbar⟩ h
    · exact ⟨_, _, hpush⟩

theorem opens?_spot (k : Cutting) (c : Char) (r : List Char) :
    k.spot.opens? c r = k.opens? c r := by
  simp [Spot.opens?, opens?, spot, and_comm]

theorem spot_flush (k : Cutting) : k.flush.spot = ⟨k.depth, k.closer, false⟩ := by
  rw [flush]
  split <;> simp_all [spot]

/-- The cutting knows where it stands. -/
theorem spot_step (k : Cutting) (c : Char) (r : List Char) :
    (k.step c r).spot = k.spot.next c r := by
  cases hcloser : k.closer with
  | some mark => simp [step, Spot.next, spot, hcloser, push]
  | none =>
    cases hopens : k.opens? c r with
    | some mark =>
      rw [Spot.next, opens?_spot, hopens]
      simp [step, spot, hcloser, hopens, push]
    | none =>
      rw [Spot.next, opens?_spot, hopens, step_plain hcloser hopens]
      have hspot : k.spot.closer? = none := hcloser
      simp only [hspot]
      obtain ⟨hdepth, hblank, h⟩ | ⟨hdepth, -, rfl, h⟩ | ⟨hnot, h⟩ := k.stepPlain_cases c
      · rw [h, spot_flush]
        simp [spot, hdepth, hcloser, hblank, (separator (.inl hblank)).2]
      · have hflush := k.spot_flush
        simp only [spot, Spot.mk.injEq] at hflush
        simp [h, spot, hflush, hdepth, hcloser, (separator (.inr rfl)).2]
      · by_cases hc : isBlank c = true ∨ c = '|'
        · have hdepth : k.depth ≠ 0 := fun hdepth ↦ hnot ⟨hdepth, hc⟩
          simp [h, spot, hcloser, (separator hc).2, hdepth]
        · simp [h, spot, hcloser, not_or.mp hc]

theorem spot_runBefore (k : Cutting) (s r : List Char) :
    (k.runBefore s r).spot = k.spot.behind s r := by
  induction s generalizing k with
  | nil => rfl
  | cons c s ih => rw [runBefore, ih, spot_step, Spot.behind]

/-! ## What a run makes of a line

The invariant is the text of the state, the finished tokens and the one under way joined together: a
character adds itself to it or, if it is a blank outside, nothing. -/

/-- The finished tokens and the one under way, as one text. -/
def text (k : Cutting) : List Char := k.done.reverse.flatten ++ k.current.reverse

theorem text_flush (k : Cutting) : k.flush.text = k.text := by
  rw [flush]
  split <;> simp_all [text]

theorem flatten_tokens (k : Cutting) : k.tokens.flatten = k.text := by
  rw [← text_flush, tokens, text]
  have hcurrent : k.flush.current = [] := by
    rw [flush]
    split <;> simp_all
  simp [hcurrent]

/-- Blanks outside are dropped, all other characters are kept. -/
theorem text_step (k : Cutting) (c : Char) (r : List Char) :
    (k.step c r).text =
      if k.spot.IsOutside ∧ isBlank c = true then k.text else k.text ++ [c] := by
  obtain ⟨hout, hblank, h⟩ | ⟨hout, rfl, h⟩ | ⟨hnot, depth, closer, h⟩ := k.step_cases c r
  · rw [h, text_flush, if_pos ⟨hout, hblank⟩]
  · have hbar : isBlank '|' = false := by decide
    rw [h, if_neg (by simp [hbar]), ← k.text_flush, flush_eq_fresh hout]
    simp [text, fresh]
  · rw [h, if_neg fun hc ↦ hnot ⟨hc.1, .inl hc.2⟩]
    simp [text]

theorem text_run (k : Cutting) (s : List Char) : (k.run s).text = k.text ++ k.spot.kept s := by
  induction s generalizing k with
  | nil => exact (List.append_nil _).symm
  | cons c s ih =>
    rw [run, ih, text_step, spot_step, Spot.kept]
    split <;> simp

theorem ne_nil_of_mem_flush {k : Cutting} (h : [] ∉ k.done) : [] ∉ k.flush.done := by
  rw [flush]
  split <;> simp_all

theorem ne_nil_of_mem_run {k : Cutting} (h : [] ∉ k.done) (s : List Char) :
    [] ∉ (k.run s).done := by
  induction s generalizing k with
  | nil => exact h
  | cons c s ih =>
    refine ih ?_
    obtain ⟨-, -, hstep⟩ | ⟨-, -, hstep⟩ | ⟨-, depth, closer, hstep⟩ := k.step_cases c s
    · rw [hstep]
      exact ne_nil_of_mem_flush h
    · rw [hstep]
      simpa [fresh] using ne_nil_of_mem_flush h
    · rwa [hstep]

/-! ## Runs behind finished tokens

What is finished is never looked at again, so a run behind some tokens is a run from the start with
these tokens in front. -/

/-- The cutting with further tokens finished before. -/
def after (k : Cutting) (done : List (List Char)) : Cutting := { k with done := k.done ++ done }

theorem flush_after (k : Cutting) (done : List (List Char)) :
    (k.after done).flush = k.flush.after done := by
  rw [flush, flush]
  show (if k.current.isEmpty then _ else _) = _
  split <;> rfl

theorem step_after (k : Cutting) (done : List (List Char)) (c : Char) (r : List Char) :
    (k.after done).step c r = (k.step c r).after done := by
  have hplain : (k.after done).stepPlain c = (k.stepPlain c).after done := by
    let k' : Cutting := { k with depth := depthAfter k.depth c }
    show (if decide (k'.depth = 0) && isBlank c then (k'.after done).flush
      else if decide (k'.depth = 0) && c == '|' then
        { (k'.after done).flush with done := [c] :: (k'.after done).flush.done }
      else (k'.after done).push c) = _
    rw [flush_after, stepPlain]
    dsimp only [k']
    split
    · rfl
    split <;> rfl
  have hopens : (k.after done).opens? c r = k.opens? c r := rfl
  rw [step, step, hopens, hplain]
  dsimp only [after]
  split
  · rfl
  · split <;> rfl

theorem run_after (k : Cutting) (done : List (List Char)) (s : List Char) :
    (k.after done).run s = (k.run s).after done := by
  induction s generalizing k with
  | nil => rfl
  | cons c s ih => rw [run, run, step_after, ih]

/-- Tokens that are finished stay in front. -/
theorem tokens_run_fresh (done : List (List Char)) (s : List Char) :
    ((fresh done).run s).tokens = done.reverse ++ splitTokens s := by
  have hfresh : fresh done = start.after done := rfl
  rw [hfresh, run_after, tokens, flush_after, splitTokens, tokens]
  exact List.reverse_append

end Cutting

/-! ## The tokens of a line -/

open Cutting

/-- The tokens together have all characters of the line but the blanks that stand outside. -/
theorem flatten_splitTokens (s : List Char) : (splitTokens s).flatten = Spot.start.kept s := by
  rw [splitTokens, flatten_tokens, text_run]
  rfl

theorem ne_nil_of_mem_splitTokens {s t : List Char} (h : t ∈ splitTokens s) : t ≠ [] := by
  rintro rfl
  refine ne_nil_of_mem_flush (ne_nil_of_mem_run (k := start) List.not_mem_nil s) ?_
  exact List.mem_reverse.mp h

/-- A bar outside is a token of its own. -/
theorem splitTokens_barline {u v : List Char} (h : (Spot.start.behind u ('|' :: v)).IsOutside) :
    ∃ ts, splitTokens (u ++ '|' :: v) = ts ++ ['|'] :: splitTokens v := by
  have hspot : (start.runBefore u ('|' :: v)).spot.IsOutside := by
    rwa [spot_runBefore]
  obtain ⟨-, hblank, -⟩ | ⟨-, -, hstep⟩ | ⟨hnot, -⟩ :=
    (start.runBefore u ('|' :: v)).step_cases '|' v
  · exact absurd hblank (by decide)
  · refine ⟨(start.runBefore u ('|' :: v)).flush.done.reverse, ?_⟩
    rw [splitTokens, run_append, run, hstep, tokens_run_fresh]
    simp
  · exact absurd ⟨hspot, .inr rfl⟩ hnot

end TextScore
