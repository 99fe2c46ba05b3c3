import TextScore.Proofs.Token.Spot

/-!
# The first token of a line

A line that starts with no blank starts with a token, and the rest of the line is cut as if it stood
alone.  So a line can be taken apart from the left, blank by blank and token by token.

The cutting goes from character to character, and an induction on characters has to say what the
token under way will be.  The induction here is on tokens instead: each step takes a blank or a
whole token off the front.  What has to be shown for it, once, is that the cutting starts again
behind a token, as if nothing stood before.

## What is here

* `Cutting.exists_token` — a token under way goes on up to a separator outside, whatever follows.
* `Leads` — a text is the first token in front of the rest of its line.
* `Leads.splitTokens_eq` — the first token, then the tokens of the rest.
* `splitTokens_induction` — induction along the tokens of a line.

A token is not determined by its own characters.  Whether the quotation mark at its front starts an
annotation depends on the rest of the line, and with it where the token ends.  So a token leads in
front of a certain rest; in front of another one it does so as well if no annotation is left open in
it, which is `IsClosed`.
-/

set_option autoImplicit false

namespace TextScore

open Text

/-- A character that ends a token where it stands outside of brackets and annotations. -/
def IsSeparator (c : Char) : Prop := isBlank c = true ∨ c = '|'

/-! ## A token under way

Once a token is under way, nothing that follows can make it an annotation, and it ends at a place
that can be told from left to right. -/

namespace Cutting

variable {k k' : Cutting} {c : Char} {s t : List Char}

/-- Within a token no annotation starts, so what follows does not matter. -/
theorem step_of_current (h : k.current ≠ []) (r r' : List Char) : k.step c r = k.step c r' := by
  rw [step, step, opens?_of_not_fresh (.inl h), opens?_of_not_fresh (.inl h)]

/-- A token under way goes on by a text, whatever follows. -/
structure Continues (k : Cutting) (t : List Char) (k' : Cutting) : Prop where
  /-- What follows does not matter. -/
  run : ∀ r, k.runBefore t r = k'
  /-- No token is finished. -/
  done : k'.done = k.done
  /-- All of the text is in the token under way. -/
  current : k'.current = t.reverse ++ k.current
  /-- The text does not start with what would end the token. -/
  head : ∀ c ∈ t.head?, ¬(k.spot.IsOutside ∧ IsSeparator c)

theorem Continues.nil (k : Cutting) : k.Continues [] k := ⟨fun _ ↦ rfl, rfl, rfl, by rintro _ ⟨⟩⟩

/-- A token under way goes on to the end of the line, or to a separator outside. -/
theorem exists_token (hne : k.current ≠ []) (s : List Char) :
    ∃ t r k', s = t ++ r ∧ k.Continues t k' ∧ (r ≠ [] → k'.spot.IsOutside) ∧
      ∀ c ∈ r.head?, IsSeparator c := by
  induction s generalizing k with
  | nil => exact ⟨[], [], k, rfl, .nil k, fun h ↦ absurd rfl h, by rintro _ ⟨⟩⟩
  | cons c s ih =>
    have hend (hout : k.spot.IsOutside) (hc : IsSeparator c) :
        ∃ t r k', c :: s = t ++ r ∧ k.Continues t k' ∧ (r ≠ [] → k'.spot.IsOutside) ∧
          ∀ c ∈ r.head?, IsSeparator c :=
      ⟨[], c :: s, k, rfl, .nil k, fun _ ↦ hout, by rintro _ ⟨⟩; exact hc⟩
    obtain ⟨hout, hc, -⟩ | ⟨hout, hc, -⟩ | ⟨hnot, depth, closer, hstep⟩ := k.step_cases c s
    · exact hend hout (.inl hc)
    · exact hend hout (.inr hc)
    · obtain ⟨t, r, k', rfl, hk', hrest⟩ := ih (k := k.step c s) (by simp [hstep])
      refine ⟨c :: t, r, k', rfl, ⟨fun r' ↦ ?_, ?_, ?_, ?_⟩, hrest⟩
      · rw [runBefore, step_of_current hne (t ++ r') (t ++ r), hk'.run]
      · rw [hk'.done, hstep]
      · rw [hk'.current, hstep]
        simp
      · rintro _ ⟨⟩
        exact hnot

/-- The mark that an annotation waits for is still to come. -/
theorem mem_of_closer_step {mark : Char} (h : ∀ m ∈ k.closer, m ∈ c :: s)
    (hmark : (k.step c s).closer = some mark) : mark ∈ s := by
  cases hk : k.closer with
  | some m =>
    have hm : c ≠ m ∧ m = mark := by simpa [step, hk] using hmark
    exact (List.mem_cons.mp (hm.2 ▸ h m hk)).resolve_left fun heq ↦ hm.1 (heq.symm.trans hm.2.symm)
  | none =>
    cases hopens : k.opens? c s with
    | some m =>
      obtain rfl : m = mark := by simpa [step, hk, hopens] using hmark
      rw [opens?] at hopens
      split at hopens
      · exact List.contains_iff_mem.mp (Option.filter_eq_some_iff.mp hopens).2
      · cases hopens
    | none =>
      rw [step_plain hk hopens] at hmark
      have hplain : (k.stepPlain c).closer = none := by
        obtain ⟨-, -, h⟩ | ⟨-, -, -, h⟩ | ⟨-, h⟩ := k.stepPlain_cases c <;> simp [h, hk]
      rw [hplain] at hmark
      cases hmark

/-- An annotation starts only with its closing mark to come, so none is open where a line ends. -/
theorem closer_run (h : ∀ mark ∈ k.closer, mark ∈ s) : (k.run s).closer = none := by
  induction s generalizing k with
  | nil => exact Option.eq_none_iff_forall_not_mem.mpr fun mark hk ↦ absurd (h mark hk) (by simp)
  | cons c s ih => exact ih fun mark hmark ↦ mem_of_closer_step h hmark

theorem closer_run_start (s : List Char) : (start.run s).closer = none :=
  closer_run (by rintro _ ⟨⟩)

end Cutting

open Cutting

/-! ## The first token

The first character decides what is under way: a bar is a token, an opening mark with its closing
mark to come starts an annotation, anything else starts an ordinary token. -/

/-- If the text starts with an annotation, the annotation is closed in it. -/
def IsClosed : List Char → Prop
  | [] => True
  | c :: s => ∀ mark ∈ annotationCloser? c, mark ∈ s

instance : DecidablePred IsClosed
  | [] => .isTrue trivial
  | c :: s => decidable_of_iff ((annotationCloser? c).all s.contains)
      (by simp [IsClosed, Option.all_eq_true])

/-- The text is cut off as a token in front of the rest of its line. -/
structure EndsToken (t r : List Char) : Prop where
  /-- It is all that is cut off. -/
  done : (start.runBefore t r).flush.done = [t]
  /-- Its end stands outside, or the line ends with it. -/
  outside : r ≠ [] → (start.runBefore t r).spot.IsOutside

/-- The text is the first token in front of the rest of its line. -/
structure Leads (t r : List Char) : Prop extends EndsToken t r where
  /-- The token is not empty. -/
  ne_nil : t ≠ []
  /-- It ends in front of a separator or is one. -/
  rest : t = ['|'] ∨ ∀ c ∈ r.head?, IsSeparator c
  /-- If no annotation is left open in it, what follows does not matter. -/
  settled : IsClosed t → ∀ r', start.runBefore t r' = start.runBefore t r

section

variable {c : Char} {s t r r' : List Char}

theorem splitTokens_cons_blank (hc : isBlank c = true) (s : List Char) :
    splitTokens (c :: s) = splitTokens s := by
  rw [splitTokens, run, step_blank rfl rfl hc]
  rfl

namespace Leads

/-- The same token in front of another rest. -/
theorem congr (h : Leads t r) (hclosed : IsClosed t)
    (hrest : t = ['|'] ∨ ∀ c ∈ r'.head?, IsSeparator c)
    (hout : (start.runBefore t r).spot.IsOutside) : Leads t r' where
  done := by rw [h.settled hclosed, h.done]
  outside _ := by rwa [h.settled hclosed]
  ne_nil := h.ne_nil
  rest := hrest
  settled _ r'' := by rw [h.settled hclosed r'', h.settled hclosed r']

/-- Behind the first token the cutting starts again. -/
theorem run_eq (h : Leads t r) (hr : r ≠ []) : start.run (t ++ r) = (start.run r).after [t] := by
  have hout := h.outside hr
  have hflush := flush_eq_fresh hout
  rw [h.done] at hflush
  rw [run_append]
  rcases h.rest with rfl | hhead
  · exact run_after start [['|']] r
  · obtain ⟨d, r, rfl⟩ := List.exists_cons_of_ne_nil hr
    rw [run, run, ← run_after]
    obtain ⟨-, hblank, hstep⟩ | ⟨-, rfl, hstep⟩ | ⟨hnot, -⟩ :=
      (start.runBefore t (d :: r)).step_cases d r
    · rw [hstep, hflush, step_blank rfl rfl hblank]
      rfl
    · rw [hstep, hflush]
      rfl
    · exact absurd ⟨hout, hhead d rfl⟩ hnot

/-- The tokens of a line are the first one and those of the rest. -/
theorem splitTokens_eq (h : Leads t r) : splitTokens (t ++ r) = t :: splitTokens r := by
  by_cases hr : r = []
  · subst hr
    rw [List.append_nil, splitTokens, ← runBefore_nil, tokens, h.done]
    rfl
  · rw [splitTokens, h.run_eq hr, tokens, flush_after]
    exact List.reverse_append

end Leads

/-- Once some characters have started a token, it goes on up to the next separator outside. -/
theorem exists_leads_of_start {k : Cutting} {u : List Char} (hne : u ≠ []) (hdone : k.done = [])
    (hcurrent : k.current = u.reverse) (hu : start.runBefore u s = k)
    (hsettled : ∀ t r, s = t ++ r → IsClosed (u ++ t) → ∀ r', start.runBefore u (t ++ r') = k) :
    ∃ t r, s = t ++ r ∧ Leads (u ++ t) r ∧
      (∀ d ∈ t.head?, ¬(k.spot.IsOutside ∧ IsSeparator d)) ∧ ∀ d ∈ r.head?, IsSeparator d := by
  obtain ⟨t, r, k', rfl, hk', hout, hhead⟩ := exists_token (k := k) (by simpa [hcurrent]) s
  have hrun : start.runBefore (u ++ t) r = k' := by rw [runBefore_append, hu, hk'.run]
  refine ⟨t, r, rfl, ⟨⟨?_, ?_⟩, by simp [hne], .inr hhead, fun hclosed r' ↦ ?_⟩, hk'.head, hhead⟩
  · rw [hrun, flush, hk'.done, hk'.current, hdone, hcurrent]
    simp [hne]
  · rwa [hrun]
  · rw [hrun, runBefore_append, hsettled t r rfl hclosed, hk'.run]

/-- A line that starts with no blank starts with a token. -/
theorem exists_leads (hc : isBlank c = false) (s : List Char) :
    ∃ t r, c :: s = t ++ r ∧ Leads t r := by
  obtain ⟨-, hblank, -⟩ | ⟨-, rfl, -⟩ | ⟨-, depth, closer, hstep⟩ := start.step_cases c s
  · exact absurd (hc.symm.trans hblank) Bool.false_ne_true
  · exact ⟨['|'], s, rfl, ⟨rfl, fun _ ↦ ⟨rfl, rfl⟩⟩, List.cons_ne_nil _ _, .inl rfl, fun _ _ ↦ rfl⟩
  · -- of what follows only the closing mark matters, and that stands in the token
    have hsettled (t r : List Char) (hs : s = t ++ r) (hclosed : IsClosed ([c] ++ t))
        (r' : List Char) : start.runBefore [c] (t ++ r') = start.step c s := by
      have hopens : start.opens? c (t ++ r') = start.opens? c s := by
        rw [opens?, opens?, hs]
        cases hmark : annotationCloser? c with
        | none => rfl
        | some mark =>
          have hmem : mark ∈ t := hclosed mark hmark
          simp [Option.filter_some, hmem]
      show start.step c (t ++ r') = _
      rw [step, step, hopens]
    obtain ⟨t, r, rfl, hleads, -⟩ := exists_leads_of_start (k := start.step c s) (u := [c])
      (List.cons_ne_nil _ _) (by rw [hstep]; rfl) (by rw [hstep]; rfl) rfl hsettled
    exact ⟨c :: t, r, rfl, hleads⟩

/-- What holds of the empty line, and of a line with one blank more in front, or with a first token
more in front, holds of every line. -/
theorem splitTokens_induction {motive : List Char → Prop} (nil : motive [])
    (blank : ∀ c s, isBlank c = true → motive s → motive (c :: s))
    (token : ∀ t r, Leads t r → motive r → motive (t ++ r)) (s : List Char) : motive s := by
  induction hn : s.length using Nat.strongRecOn generalizing s with
  | ind n ih =>
    subst hn
    cases s with
    | nil => exact nil
    | cons c s =>
      cases hc : isBlank c with
      | true => exact blank c s hc (ih s.length (Nat.lt_succ_self _) s rfl)
      | false =>
        obtain ⟨t, r, hs, hleads⟩ := exists_leads hc s
        have hpos := List.length_pos_iff.mpr hleads.ne_nil
        rw [hs]
        exact token t r hleads (ih r.length (by rw [hs, List.length_append]; omega) r rfl)

end

end TextScore
