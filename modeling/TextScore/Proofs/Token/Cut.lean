import TextScore.Proofs.Text.Words
import TextScore.Token

/-!
# Where tokens end

The cutting of a line looks ahead, so what it does to a stretch depends on what follows.  A stretch
is whole if it is one token whatever follows; whole tokens with spaces between them are cut where
they were joined.

The cutting looks ahead for one reason, to know whether an annotation will be closed.  So a run over
a stretch takes the rest of the line as an argument, `Cutting.runBefore`, and most lemmas say for
which stretches that argument does not matter: those in which no annotation can start, and those
that are an annotation with its closing mark in it.

## What is here

* `Cutting.runBefore` — the cutting after a stretch, with the rest of the line still to come.
* `Cutting.runBefore_of_extends`, `Cutting.runBefore_annotation` — stretches that are only pushed.
* `Whole` — stretches that are one token, whatever follows.
* `whole_plain`, `whole_chord`, `whole_annotation` — the kinds of whole tokens.
* `splitTokens_joinWith` — whole tokens with single spaces between them.

Being whole is more than being cut out as a token somewhere.  A quotation mark that is never closed
is a token in its own line and becomes the start of an annotation in a longer one; it is not whole.
-/

set_option autoImplicit false

namespace TextScore

open Text

namespace Cutting

/-- A new token is about to start, outside brackets and annotations. -/
def fresh (done : List (List Char)) : Cutting := ⟨done, [], 0, none⟩

/-- The cutting after a text, given the rest of the line. -/
def runBefore (k : Cutting) : List Char → List Char → Cutting
  | [], _ => k
  | c :: s, r => (k.step c (s ++ r)).runBefore s r

variable {k : Cutting} {c mark : Char} {s t r : List Char}

theorem run_append (k : Cutting) (s r : List Char) :
    k.run (s ++ r) = (k.runBefore s r).run r := by
  induction s generalizing k with
  | nil => rfl
  | cons c s ih => rw [List.cons_append, run, runBefore, ih]

theorem runBefore_nil (k : Cutting) (s : List Char) : k.runBefore s [] = k.run s := by
  induction s generalizing k with
  | nil => rfl
  | cons c s ih => rw [runBefore, run, List.append_nil, ih]

theorem runBefore_append (k : Cutting) (s t r : List Char) :
    k.runBefore (s ++ t) r = (k.runBefore s (t ++ r)).runBefore t r := by
  induction s generalizing k with
  | nil => rfl
  | cons c s ih => rw [List.cons_append, runBefore, runBefore, ih, List.append_assoc]

@[simp] theorem depth_flush (k : Cutting) : k.flush.depth = k.depth := by
  rw [flush]
  split <;> rfl

@[simp] theorem closer_flush (k : Cutting) : k.flush.closer = k.closer := by
  rw [flush]
  split <;> rfl

@[simp] theorem flush_flush (k : Cutting) : k.flush.flush = k.flush := by
  obtain ⟨done, current, depth, closer⟩ := k
  cases current <;> rfl

/-! ## What one character does -/

/-- Outside annotations, a character that starts none is an ordinary one. -/
theorem step_plain (hk : k.closer = none) (h : k.opens? c r = none) :
    k.step c r = k.stepPlain c := by
  rw [step, hk]
  dsimp only
  rw [h]

/-- No annotation starts within a token or within brackets. -/
theorem opens?_of_not_fresh (h : k.current ≠ [] ∨ k.depth ≠ 0) : k.opens? c r = none := by
  rw [opens?, if_neg]
  rw [Bool.and_eq_true, List.isEmpty_iff, beq_iff_eq]
  exact fun hk ↦ h.elim (fun hne ↦ hne hk.1) fun hne ↦ hne hk.2

theorem opens?_of_annotationCloser?_eq_none (h : annotationCloser? c = none) :
    k.opens? c r = none := by
  rw [opens?, h]
  split <;> rfl

/-- No annotation starts with a character of a class that has no opening mark. -/
theorem annotationCloser?_eq_none {p : Char → Bool} (hp : p '<' = false ∧ p '"' = false)
    (hc : p c = true) : annotationCloser? c = none := by
  rw [annotationCloser?, if_neg, if_neg]
  · rintro rfl
    exact Bool.false_ne_true (hp.2.symm.trans hc)
  · rintro rfl
    exact Bool.false_ne_true (hp.1.symm.trans hc)

theorem depthAfter_of_not_bracket (h : isBracket c = false) (n : Nat) : depthAfter n c = n := by
  rw [isBracket, Bool.or_eq_false_iff, beq_eq_false_iff_ne, beq_eq_false_iff_ne] at h
  rw [depthAfter, if_neg h.1, if_neg h.2]

/-- A blank or a bar is neither a bracket nor an opening mark. -/
theorem separator (h : isBlank c = true ∨ c = '|') :
    annotationCloser? c = none ∧ ∀ n, depthAfter n c = n := by
  have hclass : ((isBlank '<' || isBlank '"') || (isBlank '[' || isBlank ']')) = false := by decide
  simp only [Bool.or_eq_false_iff] at hclass
  have hne (d : Char) (hd : isBlank d = false ∧ d ≠ '|') : c ≠ d := by
    rintro rfl
    simp [hd] at h
  refine ⟨?_, fun n ↦ ?_⟩
  · rw [annotationCloser?, if_neg (hne _ ⟨hclass.1.1, by decide⟩),
      if_neg (hne _ ⟨hclass.1.2, by decide⟩)]
  · rw [depthAfter, if_neg (hne _ ⟨hclass.2.1, by decide⟩),
      if_neg (hne _ ⟨hclass.2.2, by decide⟩)]

/-- Outside brackets, a blank ends the token under way. -/
theorem step_blank (hdepth : k.depth = 0) (hk : k.closer = none) (hc : isBlank c = true) :
    k.step c r = k.flush := by
  obtain ⟨hnone, hsame⟩ := separator (.inl hc)
  rw [step_plain hk (opens?_of_annotationCloser?_eq_none hnone), stepPlain, hsame,
    if_pos (by simp [hdepth, hc])]

/-- A character which is neither a bracket nor, outside brackets, a blank or a bar does not end
the token. -/
def Extends (k : Cutting) (c : Char) : Prop :=
  isBracket c = false ∧ (k.depth = 0 → isBlank c = false ∧ c ≠ '|')

theorem stepPlain_of_extends (h : k.Extends c) : k.stepPlain c = k.push c := by
  rw [stepPlain, depthAfter_of_not_bracket h.1]
  dsimp only
  rw [if_neg, if_neg]
  · rw [Bool.and_eq_true, decide_eq_true_eq, beq_iff_eq]
    exact fun hc ↦ (h.2 hc.1).2 hc.2
  · rw [Bool.and_eq_true, decide_eq_true_eq]
    exact fun hc ↦ Bool.false_ne_true ((h.2 hc.1).1.symm.trans hc.2)

/-! ## Stretches that are pushed

Two kinds of stretches change nothing but the token under way: characters that neither open nor end
anything, and everything within an annotation. -/

/-- The token under way, with a stretch more. -/
def extend (k : Cutting) (s : List Char) : Cutting := { k with current := s.reverse ++ k.current }

theorem extend_push (k : Cutting) (c : Char) (s : List Char) :
    (k.push c).extend s = k.extend (c :: s) := by
  rw [extend, extend, push, List.reverse_cons, List.append_assoc]
  rfl

theorem runBefore_of_extends (hk : k.closer = none) (hne : k.current ≠ [])
    (hs : ∀ c ∈ s, k.Extends c) : k.runBefore s r = k.extend s := by
  induction s generalizing k with
  | nil => rfl
  | cons c s ih =>
    rw [List.forall_mem_cons] at hs
    rw [runBefore, step_plain hk (opens?_of_not_fresh (.inl hne)), stepPlain_of_extends hs.1,
      ih (k := k.push c) hk (List.cons_ne_nil _ _) hs.2, extend_push]

/-- Up to its closing mark, everything belongs to an annotation. -/
theorem runBefore_annotation (hk : k.closer = some mark) (hs : mark ∉ s) :
    k.runBefore s r = k.extend s := by
  induction s generalizing k with
  | nil => rfl
  | cons c s ih =>
    rw [List.mem_cons, not_or] at hs
    have hstep : k.step c (s ++ r) = k.push c := by
      rw [step, hk]
      dsimp only
      rw [if_neg (Ne.symm hs.1), ← hk]
      rfl
    rw [runBefore, hstep, ih (k := k.push c) hk hs.2, extend_push]

end Cutting

/-! ## Whole tokens

The definition quantifies over the finished tokens and over the rest, so that whole tokens can be
cut off one by one, whatever stands before and behind. -/

open Cutting

/-- A text that is one token, whatever follows. -/
def Whole (s : List Char) : Prop :=
  ∀ done r, ((fresh done).runBefore s r).flush = fresh (s :: done)

theorem flush_current {s : List Char} (hs : s ≠ []) (done : List (List Char)) :
    (Cutting.mk done s.reverse 0 none).flush = fresh (s :: done) := by
  rw [flush, if_neg (by simpa using hs), List.reverse_reverse]
  rfl

/-- A character that stands in a token outside of brackets and annotations. -/
def isPlain (c : Char) : Bool := !isBlank c && c != '|' && !isBracket c

theorem extends_of_isPlain {k : Cutting} {c : Char} (h : isPlain c = true) : k.Extends c := by
  simp only [isPlain, Bool.and_eq_true, Bool.not_eq_true', bne_iff_ne] at h
  exact ⟨h.2, fun _ ↦ h.1⟩

theorem whole_barline : Whole ['|'] := fun _ _ ↦ rfl

/-- Plain characters are a token if they do not start with the opening mark of an annotation. -/
theorem whole_plain {c : Char} {s : List Char} (hc : annotationCloser? c = none)
    (hs : ∀ d ∈ c :: s, isPlain d = true) : Whole (c :: s) := by
  intro done r
  rw [List.forall_mem_cons] at hs
  have hstep : (fresh done).step c (s ++ r) = (fresh done).push c := by
    rw [step_plain rfl (opens?_of_annotationCloser?_eq_none hc),
      stepPlain_of_extends (extends_of_isPlain hs.1)]
  have hrun : (fresh done).runBefore (c :: s) r = ⟨done, (c :: s).reverse, 0, none⟩ := by
    rw [runBefore, hstep, runBefore_of_extends rfl (List.cons_ne_nil _ _)
      fun d hd ↦ extends_of_isPlain (hs.2 d hd), List.reverse_cons]
    rfl
  rw [hrun, flush_current (List.cons_ne_nil _ _)]

/-- Brackets with no brackets inside and plain characters behind them are a token. -/
theorem whole_chord {inner suffix : List Char} (hinner : ∀ c ∈ inner, isBracket c = false)
    (hsuffix : ∀ c ∈ suffix, isPlain c = true) : Whole ('[' :: (inner ++ ']' :: suffix)) := by
  intro done r
  -- one bracket is open, so blanks and bars are part of the token
  have hinside : Cutting.runBefore ⟨done, ['['], 1, none⟩ inner (']' :: suffix ++ r) =
      ⟨done, inner.reverse ++ ['['], 1, none⟩ :=
    runBefore_of_extends rfl (List.cons_ne_nil _ _) fun c hc ↦ ⟨hinner c hc, fun h ↦ nomatch h⟩
  have hclose : Cutting.step ⟨done, inner.reverse ++ ['['], 1, none⟩ ']' (suffix ++ r) =
      ⟨done, ']' :: (inner.reverse ++ ['[']), 0, none⟩ := by
    rw [step_plain rfl (opens?_of_not_fresh (.inr Nat.one_ne_zero))]
    rfl
  have hrun : (fresh done).runBefore ('[' :: (inner ++ ']' :: suffix)) r =
      ⟨done, ('[' :: (inner ++ ']' :: suffix)).reverse, 0, none⟩ := by
    rw [runBefore, runBefore_append]
    show ((Cutting.runBefore ⟨done, ['['], 1, none⟩ inner _).runBefore (']' :: suffix) r) = _
    rw [hinside, runBefore, hclose, runBefore_of_extends rfl (List.cons_ne_nil _ _)
      fun c hc ↦ extends_of_isPlain (hsuffix c hc)]
    simp [extend]
  rw [hrun, flush_current (List.cons_ne_nil _ _)]

/-- An annotation is over behind its closing mark, whatever follows. -/
theorem runBefore_closed {c mark : Char} {s : List Char} (hc : annotationCloser? c = some mark)
    (hs : mark ∉ s) (done : List (List Char)) (r : List Char) :
    (fresh done).runBefore (c :: (s ++ [mark])) r =
      ⟨done, (c :: (s ++ [mark])).reverse, 0, none⟩ := by
  -- the closing mark is in sight, whatever follows
  have hopen : (fresh done).step c (s ++ [mark] ++ r) = ⟨done, [c], 0, some mark⟩ := by
    have hopens : (fresh done).opens? c (s ++ [mark] ++ r) = some mark := by
      rw [opens?, hc]
      simp [fresh]
    rw [step]
    dsimp only [fresh] at hopens ⊢
    rw [hopens]
    rfl
  have hinside : Cutting.runBefore ⟨done, [c], 0, some mark⟩ s ([mark] ++ r) =
      ⟨done, s.reverse ++ [c], 0, some mark⟩ := runBefore_annotation rfl hs
  rw [runBefore, hopen, runBefore_append, hinside, runBefore, runBefore, step]
  simp [push]

/-- An annotation with its closing mark is a token. -/
theorem whole_annotation {c mark : Char} {s : List Char} (hc : annotationCloser? c = some mark)
    (hs : mark ∉ s) : Whole (c :: (s ++ [mark])) := by
  intro done r
  rw [runBefore_closed hc hs, flush_current (List.cons_ne_nil _ _)]

/-- A whole token ends at the space behind it. -/
theorem run_whole {s : List Char} (hs : Whole s) (done : List (List Char)) (r : List Char) :
    (fresh done).run (s ++ ' ' :: r) = (fresh (s :: done)).run r := by
  have hflush := hs done (' ' :: r)
  have hdepth : ((fresh done).runBefore s (' ' :: r)).depth = 0 := by
    rw [← depth_flush, hflush]
    rfl
  have hcloser : ((fresh done).runBefore s (' ' :: r)).closer = none := by
    rw [← closer_flush, hflush]
    rfl
  rw [run_append, run, step_blank hdepth hcloser (by decide), hflush]

/-- Whole tokens with single spaces between them are cut where they were joined. -/
theorem splitTokens_joinWith {ss : List (List Char)} (h : ∀ s ∈ ss, Whole s) :
    splitTokens (joinWith [' '] ss) = ss := by
  -- the induction needs the tokens that are done already
  have hrun (done : List (List Char)) :
      ((fresh done).run (joinWith [' '] ss)).tokens = done.reverse ++ ss := by
    induction ss generalizing done with
    | nil =>
      rw [List.append_nil]
      rfl
    | cons s ss ih =>
      rw [List.forall_mem_cons] at h
      cases ss with
      | nil =>
        have hend : (fresh done).run s = (fresh done).runBefore s [] := by
          rw [← List.append_nil s, run_append, List.append_nil]
          rfl
        rw [joinWith_cons, List.flatMap_nil, List.append_nil, hend, tokens, h.1 done []]
        exact List.reverse_cons
      | cons t ss =>
        have hjoin : joinWith [' '] (s :: t :: ss) = s ++ ' ' :: joinWith [' '] (t :: ss) := by
          rw [joinWith_cons, joinWith_cons, List.flatMap_cons, List.append_assoc]
          rfl
        rw [hjoin, run_whole h.1, ih h.2, List.reverse_cons, List.append_assoc,
          List.singleton_append]
  exact hrun []

end TextScore
