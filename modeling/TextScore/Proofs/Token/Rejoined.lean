import Mathlib.Data.List.Induction
import TextScore.Proofs.Token.First

/-!
# Tokens are cut where they were joined

Cutting a line loses blanks and nothing else, and it is stable: if the tokens are joined with single
spaces and cut again, they are the same.

The second part is less obvious than it looks.  Whether an annotation starts depends on what
follows, so where a line is cut depends on all of it, and joining the tokens changes what follows
each of them.  Of what follows only the closing marks matter, though.  They are no blanks, and so
they are all still there, in the same order, when other blanks stand between the tokens.

## What is here

* `Cutting.runBefore_congr` — blanks in the rest of the line do not matter.
* `EndsToken.splitTokens_space` — a token is cut off in front of a space as well.
* `splitTokens_rejoined` — joined tokens are cut where they were joined.
* `splitTokens_append_space` — a line can be broken at a space behind a text that is closed.
* `isCut_splitTokens` — nothing is lost, bars stand alone, and tokens stay tokens.

Nothing is assumed about the line: brackets may be open or stray, annotations unfinished.  A blank
within brackets or an annotation belongs to its token and is kept as it is, so it is not true that
joining the tokens gives a line with single spaces throughout.
-/

set_option autoImplicit false

namespace TextScore

open Text

/-! ## The rest of the line -/

namespace Cutting

variable {k : Cutting} {c mark : Char} {s r r' : List Char}

theorem isBlank_of_annotationCloser? (h : annotationCloser? c = some mark) :
    isBlank mark = false := by
  rw [annotationCloser?] at h
  split at h
  · cases h
    decide
  split at h
  · cases h
    decide
  · cases h

/-- Of the rest of the line only the marks matter. -/
theorem opens?_congr (h : visible r = visible r') : k.opens? c r = k.opens? c r' := by
  rw [opens?, opens?]
  cases hc : annotationCloser? c with
  | none => rfl
  | some mark =>
    have hmark : r.contains mark = r'.contains mark := by
      have hmem (s : List Char) : mark ∈ visible s ↔ mark ∈ s := by
        simp [visible, isBlank_of_annotationCloser? hc]
      rw [Bool.eq_iff_iff, List.contains_iff_mem, List.contains_iff_mem, ← hmem r, ← hmem r', h]
    simp only [Option.filter_some, hmark]

theorem runBefore_congr (h : visible r = visible r') : k.runBefore s r = k.runBefore s r' := by
  induction s generalizing k with
  | nil => rfl
  | cons c s ih =>
    have happend : visible (s ++ r) = visible (s ++ r') := by simp [h]
    rw [runBefore, runBefore, ih, step, step, opens?_congr happend]

end Cutting

/-! ## The first token -/

open Cutting

section

variable {s t r r' : List Char}

namespace EndsToken

/-- Cut off in front of a rest, a text is a token on its own if the rest has no marks. -/
theorem splitTokens_self (h : EndsToken t r) (hr : visible r = []) : splitTokens t = [t] := by
  have hsame : visible [] = visible r := hr.symm
  rw [splitTokens, ← runBefore_nil, runBefore_congr hsame, tokens, h.done]
  rfl

/-- Cut off in front of a rest, a text is cut off in front of a space and a rest with the same
marks. -/
theorem splitTokens_space (h : EndsToken t r) (hr : r ≠ []) (hsame : visible r' = visible r) :
    splitTokens (t ++ ' ' :: r') = t :: splitTokens r' := by
  have hspace : visible (' ' :: r') = visible r := by rw [← hsame]; rfl
  have hout := h.outside hr
  rw [splitTokens, run_append, runBefore_congr hspace, run, step_blank hout.1 hout.2 (by decide),
    flush_eq_fresh hout, h.done, tokens_run_fresh]
  rfl

end EndsToken

/-! ## All tokens

The induction is along the tokens of the line.  What it needs of the rest is that its tokens,
joined, have the characters of the rest that are no blanks. -/

theorem visible_joinWith (ts : List (List Char)) :
    visible (joinWith [' '] ts) = visible ts.flatten := by
  cases ts with
  | nil => rfl
  | cons t ts =>
    rw [joinWith_cons, List.flatten_cons, visible_append, visible_append]
    congr 1
    induction ts with
    | nil => rfl
    | cons t ts ih => simp_all [visible_cons, show isBlank ' ' = true by decide]

/-- The tokens together have the characters of the line that are no blanks. -/
theorem visible_splitTokens (s : List Char) : visible (splitTokens s).flatten = visible s := by
  rw [flatten_splitTokens, Spot.visible_kept]

/-- Tokens that are joined with single spaces are cut where they were joined. -/
theorem splitTokens_rejoined (s : List Char) :
    splitTokens (joinWith [' '] (splitTokens s)) = splitTokens s := by
  induction s using splitTokens_induction with
  | nil => rfl
  | blank c s hc ih => rwa [splitTokens_cons_blank hc]
  | token t r h ih =>
    have hvisible := (visible_joinWith (splitTokens r)).trans (visible_splitTokens r)
    rw [h.splitTokens_eq]
    cases hr : splitTokens r with
    | nil =>
      rw [hr] at hvisible
      rw [joinWith_cons, List.flatMap_nil, List.append_nil]
      exact h.splitTokens_self hvisible.symm
    | cons u us =>
      have hne : r ≠ [] := by
        rintro rfl
        cases hr
      have hjoin : joinWith [' '] (t :: u :: us) = t ++ ' ' :: joinWith [' '] (u :: us) :=
        List.intercalate_cons_cons.trans (List.append_assoc _ _ _)
      rw [hr] at ih hvisible
      rw [hjoin, h.splitTokens_space hne hvisible, ih]

/-- A line can be broken at a space behind a text in which no bracket and no annotation is left
open. -/
theorem splitTokens_append_space {x : List Char} (hdepth : (start.run x).depth = 0)
    (hclosed : ∀ t ∈ splitTokens x, IsClosed t) (y : List Char) :
    splitTokens (x ++ ' ' :: y) = splitTokens x ++ splitTokens y := by
  have hspace : isBlank ' ' = true := by decide
  -- token by token, as the cutter goes: the text behind a token is cut as if it stood alone
  induction x using splitTokens_induction with
  | nil => exact splitTokens_cons_blank hspace y
  | blank c s hc ih =>
    rw [run, step_blank rfl rfl hc] at hdepth
    rw [splitTokens_cons_blank hc] at hclosed ⊢
    rw [List.cons_append, splitTokens_cons_blank hc, ih hdepth hclosed]
  | token t r h ih =>
    rw [h.splitTokens_eq, List.forall_mem_cons] at hclosed
    rw [h.splitTokens_eq, List.cons_append, List.append_assoc]
    by_cases hr : r = []
    · -- the token goes on to the end of the first text
      subst hr
      have hout : (start.runBefore t []).spot.IsOutside := by
        rw [List.append_nil] at hdepth
        rw [runBefore_nil]
        exact ⟨hdepth, closer_run_start t⟩
      have hleads : Leads t (' ' :: y) :=
        h.congr hclosed.1 (.inr (by rintro _ ⟨⟩; exact .inl hspace)) hout
      rw [List.nil_append, hleads.splitTokens_eq, splitTokens_cons_blank hspace]
      rfl
    · have hrest : t = ['|'] ∨ ∀ c ∈ (r ++ ' ' :: y).head?, IsSeparator c := by
        obtain ⟨d, r, rfl⟩ := List.exists_cons_of_ne_nil hr
        exact h.rest
      have hleads : Leads t (r ++ ' ' :: y) := h.congr hclosed.1 hrest (h.outside hr)
      rw [h.run_eq hr] at hdepth
      rw [hleads.splitTokens_eq, ih hdepth hclosed.2]

end

/-! ## Blanks at the ends

A line may be trimmed before it is cut, but not if it ends within brackets: there the blanks behind
it belong to its last token. -/

/-- Blanks in front of a line do not matter. -/
theorem splitTokens_blank_append {a : List Char} (ha : ∀ c ∈ a, isBlank c = true) (s : List Char) :
    splitTokens (a ++ s) = splitTokens s := by
  induction a with
  | nil => rfl
  | cons c a ih =>
    rw [List.forall_mem_cons] at ha
    rw [List.cons_append, splitTokens_cons_blank ha.1, ih ha.2]

/-- Outside of brackets, blanks behind a line do not matter. -/
theorem splitTokens_append_blank {b : List Char} (hb : ∀ c ∈ b, isBlank c = true) {s : List Char}
    (h : (start.run (s ++ b)).depth = 0) : splitTokens (s ++ b) = splitTokens s := by
  induction b using List.reverseRecOn with
  | nil => rw [List.append_nil]
  | append_singleton b c ih =>
    rw [List.forall_mem_append, List.forall_mem_singleton] at hb
    obtain ⟨hnone, hsame⟩ := separator (.inl hb.2)
    have hvisible : visible [c] = visible [] := by simp [visible, hb.2]
    have hcloser := closer_run_start (s ++ b)
    have hlast : start.run (s ++ (b ++ [c])) = (start.run (s ++ b)).stepPlain c := by
      rw [← List.append_assoc, run_append, runBefore_congr hvisible, runBefore_nil, run, run,
        step_plain hcloser (opens?_of_annotationCloser?_eq_none hnone)]
    rw [hlast] at h
    obtain ⟨hdepth, -, hflush⟩ | ⟨-, hblank, -⟩ | ⟨hnot, hpush⟩ :=
      (start.run (s ++ b)).stepPlain_cases c
    · rw [splitTokens, hlast, hflush, tokens, flush_flush]
      exact ih hb.1 hdepth
    · exact absurd (hblank.symm.trans hb.2) Bool.false_ne_true
    · rw [hpush, hsame] at h
      exact absurd ⟨h, .inl hb.2⟩ hnot

/-- Trimming a line does not matter if it ends outside of brackets. -/
theorem splitTokens_trim {s : List Char} (h : (start.run s).depth = 0) :
    splitTokens (trim s) = splitTokens s := by
  obtain ⟨a, b, hs, ha, hb⟩ := exists_trim s
  have hrest := splitTokens_blank_append ha (trim s)
  rw [hs] at h
  rw [← hrest, ← splitTokens_append_blank hb h, ← hs]

/-- Nor if it ends with no blank. -/
theorem splitTokens_trim_of_getLast? {s : List Char} (h : ∀ c ∈ s.getLast?, isBlank c = false) :
    splitTokens (trim s) = splitTokens s := by
  obtain ⟨a, b, hs, ha, hb⟩ := exists_trim s
  have hnil : b = [] := by
    by_contra hne
    have hlast := List.getLast_mem hne
    have hmem : b.getLast hne ∈ s.getLast? := by
      rw [hs, List.getLast?_append, List.getLast?_eq_some_getLast hne]
      rfl
    exact Bool.false_ne_true ((h _ hmem).symm.trans (hb _ hlast))
  rw [hnil, List.append_nil] at hs
  rw [← splitTokens_blank_append ha (trim s), ← hs]

/-- The two parts of a line that is broken at a space may be trimmed. -/
theorem splitTokens_trim_append_space {x : List Char} (hdepth : (start.run x).depth = 0)
    (hclosed : ∀ t ∈ splitTokens x, IsClosed t) (y : List Char) :
    splitTokens (trim (x ++ ' ' :: y)) = splitTokens (trim x) ++ splitTokens (trim y) := by
  obtain ⟨a, b, hy, ha, hb⟩ := exists_trim y
  have hspace : ∀ c ∈ ' ' :: a, isBlank c = true := List.forall_mem_cons.mpr ⟨by decide, ha⟩
  have htrim : trim (x ++ ' ' :: y) = trim (x ++ ' ' :: (a ++ trim y)) := by
    rw [← trim_append_blank hb (x ++ ' ' :: (a ++ trim y)), List.append_assoc, List.cons_append,
      ← hy]
  rw [htrim, splitTokens_trim hdepth]
  by_cases hnil : trim y = []
  · rw [hnil, List.append_nil, trim_append_blank hspace, splitTokens_trim hdepth]
    exact (List.append_nil _).symm
  · have hlast : ∀ c ∈ (x ++ ' ' :: (a ++ trim y)).getLast?, isBlank c = false := by
      intro c hc
      rw [← List.cons_append, ← List.append_assoc, List.getLast?_append,
        List.getLast?_eq_some_getLast hnil, Option.some_or,
        ← List.getLast?_eq_some_getLast hnil] at hc
      exact isBlank_getLast?_trim hc
    rw [splitTokens_trim_of_getLast? hlast, splitTokens_append_space hdepth hclosed,
      splitTokens_blank_append ha]

/-! ## What the tokens of a line are -/

/-- A line is cut into tokens without a loss, and for good. -/
structure IsCut (s : List Char) (ts : List (List Char)) : Prop where
  /-- No token is empty. -/
  nonempty : ∀ t ∈ ts, t ≠ []
  /-- The tokens have all characters of the line, in order, but blanks that stand outside of
  brackets and annotations. -/
  kept : ts.flatten = Spot.start.kept s
  /-- No other characters than blanks are left out. -/
  visible : ts.flatten.filter (fun c ↦ !isBlank c) = s.filter fun c ↦ !isBlank c
  /-- A bar outside of brackets and annotations is a token of its own. -/
  bar : ∀ u v, s = u ++ '|' :: v → (Spot.start.behind u ('|' :: v)).IsOutside →
    ∃ before, ts = before ++ ['|'] :: splitTokens v
  /-- The same tokens are cut off if they are joined with single spaces. -/
  rejoined : splitTokens (joinWith [' '] ts) = ts

/-- **Cutting is lossless and stable.**  What is cut off a line is all of it but blanks outside, and
cutting the tokens again, with single spaces between them, changes nothing.  This holds of every
line, whether or not its brackets and annotations are closed. -/
theorem isCut_splitTokens (s : List Char) : IsCut s (splitTokens s) where
  nonempty _ ht := ne_nil_of_mem_splitTokens ht
  kept := flatten_splitTokens s
  visible := visible_splitTokens s
  bar u v hs hout := by
    rw [hs]
    exact splitTokens_barline hout
  rejoined := splitTokens_rejoined s

/-- Brackets that are not balanced, an annotation and a bar within it: two bars are kept in tokens,
two are tokens. -/
example : splitTokens "c4]|<a |b>\t| \"x [d |".toList =
    ["c4]", "|", "<a |b>", "|", "\"x", "[d |"].map String.toList := by
  decide +kernel

end TextScore
