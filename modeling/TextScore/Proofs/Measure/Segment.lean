import TextScore.Proofs.Measure.LastActive
import TextScore.Proofs.Number.Arithmetic
import TextScore.Proofs.Number.Whole
import TextScore.Proofs.Outcome
import TextScore.Proofs.Score.Stages
import TextScore.Timeline

/-!
# Lines of the body, one by one, and the blocks they make

What each kind of line does to what is known of the body, and what follows for the blocks of a text:
whatever it says, a block has at least one measure, its tempo can be divided by, and so can both
numbers of its time signature.

The defaults are checked, and what a directive sets is left out unless it is positive; so this is an
invariant of reading, kept by every line.  There are two versions of it.  `Block.Positive` is about
the numbers as they are and says that nothing is divided by zero; so how long a block lasts can
always be told, unless one of its numbers is too large for a double.  `Block.Proper` is about
values, and says that nothing is negative, which is what the times of notes need.

## What is here

* `Block.Positive`, `Body.positive_segment` — the blocks of a text.
* `Block.TooLarge` — a number of a block rounds beyond all doubles.
* `Block.ends_meter`, `Block.ends_beats` — the lengths of a block fail in no other way.
* `Segmenting.setTempo_ok`, `setTimeSignature_ok`, `openBlock_ok`, `addLine_ok` — all that can
  happen in a line.
* `Segmenting.step_invariant` — what all of these keep, a line keeps.
* `Block.Proper`, `Body.proper_segment` — the blocks of a text.

A tempo that is no number would pass both tests.  None can be written in a score, but a default
tempo may be one.
-/

set_option autoImplicit false

namespace TextScore

open Text Number

/-! ## Blocks have a length -/

/-! ### Positive blocks

That a tempo is not at or below zero is said by the comparison of doubles, as it is made when the
block is played. -/

/-- A block has at least one measure, and neither its tempo nor a number of its time signature is at
or below zero.  The tempo may be no number. -/
structure Block.Positive (b : Block) : Prop where
  /-- There is a measure. -/
  measureCount : 1 ≤ b.measureCount
  /-- The tempo is not at or below zero. -/
  tempo : ¬b.tempo ≤ 0
  /-- The number of beats is positive. -/
  numerator : 0 < b.timeSignature.numerator
  /-- The value of a beat is positive. -/
  denominator : 0 < b.timeSignature.denominator

theorem Defaults.positive_of_check {d : Defaults} (h : d.check = .ok d) :
    ¬d.tempo ≤ 0 ∧ 0 < d.timeSignature.numerator ∧ 0 < d.timeSignature.denominator := by
  rw [check] at h
  split_ifs at h with htempo htime hduration
  obtain ⟨hnumerator, hdenominator⟩ := not_or.mp htime
  exact ⟨htempo, by omega, by omega⟩

/-- The tempo behind some clauses is not at or below zero. -/
theorem tempoBehind_positive {d : Defaults} (h : d.check = .ok d) (past : List Clause) :
    ¬tempoBehind d past ≤ 0 := by
  refine getD_getLast?_filterMap (P := fun x : Float ↦ ¬x ≤ 0) (Defaults.positive_of_check h).1 ?_
  intro c _ x hx
  cases c with
  | directive line text =>
    obtain ⟨t, -, ht⟩ := Option.bind_eq_some_iff.mp hx
    split_ifs at ht with hpos
    obtain rfl := Option.some.inj ht
    exact not_le_zero_of_lt hpos
  | header line header => cases hx
  | plain line text => cases hx

/-- Both numbers of the time signature behind some clauses are positive. -/
theorem timeSignatureBehind_positive {d : Defaults} (h : d.check = .ok d) (past : List Clause) :
    0 < (timeSignatureBehind d past).numerator ∧ 0 < (timeSignatureBehind d past).denominator := by
  refine getD_getLast?_filterMap (P := fun t : TimeSignature ↦ 0 < t.numerator ∧ 0 < t.denominator)
    (Defaults.positive_of_check h).2 ?_
  intro c _ x hx
  cases c with
  | directive line text =>
    obtain ⟨f, -, hf⟩ := Option.bind_eq_some_iff.mp hx
    split_ifs at hf with hpos
    obtain rfl := Option.some.inj hf
    exact ⟨Int.natCast_pos.mpr hpos.1, Int.natCast_pos.mpr hpos.2⟩
  | header line header => cases hx
  | plain line text => cases hx

theorem positive_blocksBehind {d : Defaults} (h : d.check = .ok d) (past cs : List Clause) :
    ∀ b ∈ blocksBehind d past cs, b.Positive := by
  induction cs generalizing past with
  | nil => exact fun b hb ↦ absurd hb List.not_mem_nil
  | cons c cs ih =>
    intro b hb
    cases c with
    | header line header =>
      rcases List.mem_cons.mp hb with rfl | hb
      · obtain ⟨hnumerator, hdenominator⟩ := timeSignatureBehind_positive h _
        exact ⟨le_max_left _ _, tempoBehind_positive h _, hnumerator, hdenominator⟩
      · exact ih _ b hb
    | directive line text => exact ih _ b hb
    | plain line text => exact ih _ b hb

/-- All blocks of a text are positive. -/
theorem Body.positive_segment {defaults : Defaults} {ls : List (Nat × List Char)} {body : Body}
    (hdefaults : defaults.check = .ok defaults) (h : (segment defaults ls).value = .ok body) :
    ∀ b ∈ body.blocks, b.Positive := by
  rw [blocks_eq h]
  exact positive_blocksBehind hdefaults [] _

/-! ### Lengths -/

/-- A number of the block rounds to a double of `2 ^ 1024` or more. -/
inductive Block.TooLarge (b : Block) : Prop
  /-- The number of beats. -/
  | numerator (h : IsBeyond b.timeSignature.numerator)
  /-- The value of a beat. -/
  | denominator (h : IsBeyond b.timeSignature.denominator)
  /-- The number of measures. -/
  | measureCount (h : IsBeyond b.measureCount)

namespace Block

variable {b : Block}

theorem ends_measureBeats (hb : b.Positive) :
    Ends (fun _ ↦ True) (fun f ↦ f = .integerTooLarge ∧ b.TooLarge) b.measureBeats := by
  rw [measureBeats, TimeSignature.measureBeats]
  refine ((ends_ofInt hb.denominator).mono (fun _ h ↦ h) fun f h ↦
    ⟨h.1, .denominator h.2⟩).bind fun x hx ↦ ?_
  rw [divide_ok (not_le_zero_of_pos hx), ok_bind]
  exact ((ends_ofInt hb.numerator).mono (fun _ h ↦ h) fun f h ↦ ⟨h.1, .numerator h.2⟩).bind
    fun _ _ ↦ .ok trivial

theorem beatSeconds_ok (hb : b.Positive) : b.beatSeconds = .ok (60 / b.tempo) :=
  divide_ok hb.tempo

/-- A block can be counted in beats unless one of its numbers is too large. -/
theorem ends_beats (hb : b.Positive) :
    Ends (fun _ ↦ True) (fun f ↦ f = .integerTooLarge ∧ b.TooLarge) b.beats := by
  have hcount : 0 < b.measureCount := by
    have := hb.measureCount
    omega
  rw [beats]
  refine (ends_measureBeats hb).bind fun _ _ ↦ ?_
  exact ((ends_ofInt hcount).mono (fun _ h ↦ h) fun f h ↦ ⟨h.1, .measureCount h.2⟩).bind
    fun _ _ ↦ .ok trivial

/-- A block can be played in time unless one of its numbers is too large. -/
theorem ends_meter (hb : b.Positive) (start : Float) :
    Ends (fun _ ↦ True) (fun f ↦ f = .integerTooLarge ∧ b.TooLarge) (b.meter start) := by
  rw [meter, beatSeconds_ok hb, ok_bind]
  exact (ends_measureBeats hb).bind fun _ _ ↦ .ok trivial

end Block

/-! ## Lines of the body, one by one

Each lemma says all that its function can do, guards included, so that an invariant is checked case
by case and no function has to be unfolded for it. -/

namespace Segmenting

variable {line : Nat} {g g' : Segmenting} {text : List Char}

/-- A directive sets a positive tempo, or leaves the tempo as it is. -/
theorem setTempo_ok (h : (setTempo line g text).value = .ok g') :
    g' = g ∨ ∃ tempo : Float, 0 < tempo ∧ g' = { g with tempo := tempo } := by
  rw [setTempo] at h
  cases ht : findTempo? text with
  | none =>
    rw [ht] at h
    exact .inl (Except.ok.inj h).symm
  | some t =>
    rw [ht] at h
    dsimp only at h
    split_ifs at h with hpos
    · exact .inr ⟨t.value, hpos, (Except.ok.inj h).symm⟩
    · exact .inl (Except.ok.inj h).symm

/-- A directive sets a positive time signature, or leaves it as it is. -/
theorem setTimeSignature_ok (h : (setTimeSignature line g text).value = .ok g') :
    g' = g ∨ ∃ n d : Nat, 0 < n ∧ 0 < d ∧ g' = { g with timeSignature := ⟨n, d⟩ } := by
  have hset (n d : Nat) : (if 0 < n ∧ 0 < d then
      return { g with timeSignature := ⟨n, d⟩ }
    else do
      report line (.ignoredTimeSignature n d)
      return g : Pass Segmenting).Appends := by
    split
    · exact .pure _
    · exact .bind (.note _) fun _ ↦ .pure _
  rw [setTimeSignature] at h
  rcases ht : findTimeSignature? text with _ | ⟨n, d⟩
  · rw [ht] at h
    exact .inl (Except.ok.inj h).symm
  · rw [ht] at h
    dsimp only at h
    rw [Noted.value_bind fun n ↦ .bind (.ofExcept _) (hset n), Noted.value_ofExcept] at h
    obtain ⟨numerator, -, h⟩ := bind_eq_ok h
    rw [Noted.value_bind (hset numerator), Noted.value_ofExcept] at h
    obtain ⟨denominator, -, h⟩ := bind_eq_ok h
    split_ifs at h with hpos
    · exact .inr ⟨numerator, denominator, hpos.1, hpos.2, (Except.ok.inj h).symm⟩
    · exact .inl (Except.ok.inj h).symm

/-- A directive sets tempo, time signature and names, and the current block follows. -/
theorem applyDirective_ok (h : (applyDirective line g text).value = .ok g') :
    ∃ g₁ g₂, (setTempo line g text).value = .ok g₁ ∧
      (setTimeSignature line g₁ text).value = .ok g₂ ∧ g' = (g₂.setNames text).updateBlock := by
  rw [applyDirective, Noted.value_bind fun g ↦
    .bind (appends_setTimeSignature line g text) fun _ ↦ .pure _] at h
  obtain ⟨g₁, h₁, h⟩ := bind_eq_ok h
  rw [Noted.value_bind fun _ ↦ .pure _] at h
  obtain ⟨g₂, h₂, h⟩ := bind_eq_ok h
  exact ⟨g₁, g₂, h₁, h₂, (Except.ok.inj h).symm⟩

/-- A measure header opens a block with what holds. -/
theorem openBlock_ok {header : MeasureHeader} (h : (openBlock line g header).value = .ok g') :
    ∃ first last : Nat, first ≤ last ∧ g' = { g with
      closed := g.blocks
      current? := some { first, last, tempo := g.tempo, timeSignature := g.timeSignature } } := by
  rw [openBlock_eq, Noted.value_bind fun first ↦ .bind (.ofExcept _) fun last ↦
    appends_openRange line g first last] at h
  obtain ⟨first, -, h⟩ := bind_eq_ok h
  rw [Noted.value_bind fun last ↦ appends_openRange line g first last] at h
  obtain ⟨last, -, h⟩ := bind_eq_ok h
  refine ⟨first, max first last, le_max_left first last, ?_⟩
  rw [openRange] at h
  dsimp only at h
  split_ifs at h
  all_goals exact (Except.ok.inj h).symm

/-- A line is added to the current block, or has no effect. -/
theorem addLine_ok (h : (addLine line g text).value = .ok g') :
    g' = g ∨ ∃ b, g.current? = some b ∧
      g' = { g with current? := some { b with lines := b.lines ++ [(line, text)] } } := by
  rw [addLine] at h
  split at h
  · exact .inl (Except.ok.inj h).symm
  split at h
  · exact .inl (Except.ok.inj h).symm
  · exact .inl (Except.ok.inj h).symm
  · rename_i b _ hb
    exact .inr ⟨b, hb, (Except.ok.inj h).symm⟩

/-- What a directive, a measure header and any other line keep, all lines keep. -/
theorem step_invariant {P : Segmenting → Prop}
    (hdirective : ∀ {g g' b text}, P g →
      (applyDirective line { g with inMeta := b } text).value = .ok g' → P g')
    (hheader : ∀ {g g' header}, P g → (openBlock line g header).value = .ok g' → P g')
    (hline : ∀ {g g' text}, P g → (addLine line g text).value = .ok g' → P g')
    (hg : P g) (h : (step line g text).value = .ok g') : P g' := by
  induction g, text using step.induct with
  | case1 g text hdir =>
    rw [step, if_pos hdir] at h
    exact hdirective hg h
  | case2 g text hdir header hread ih =>
    rw [step, if_neg hdir] at h
    split at h
    case h_1 header' hread' =>
      obtain rfl := Option.some.inj (hread.symm.trans hread')
      -- opening the block comes first, and the rest of the line is read with it
      rw [Noted.value_bind fun g ↦ by
        dsimp only
        split
        · exact .pure _
        · exact appends_step line g _] at h
      obtain ⟨g₁, h₁, h⟩ := bind_eq_ok h
      dsimp only at h
      split_ifs at h
      · obtain rfl := Except.ok.inj h
        exact hheader hg h₁
      · exact ih g₁ (hheader hg h₁) h
    case h_2 hread' => cases hread.symm.trans hread'
  | case3 g text hdir hread =>
    rw [step, if_neg hdir] at h
    split at h
    case h_1 header' hread' => cases hread.symm.trans hread'
    case h_2 => exact hline hg h

end Segmenting

/-! ### Proper blocks -/

/-- Neither number of a time signature is below zero. -/
def TimeSignature.Proper (t : TimeSignature) : Prop := 0 ≤ t.numerator ∧ 0 ≤ t.denominator

/-- The tempo and the time signature of a block make sense.  The tempo may be no number. -/
structure Block.Proper (b : Block) : Prop where
  /-- The tempo is not negative. -/
  tempo : 0 ≤ value b.tempo
  /-- The time signature is not negative. -/
  timeSignature : b.timeSignature.Proper

theorem Defaults.proper_of_check {d : Defaults} (h : d.check = .ok d) :
    0 ≤ value d.tempo ∧ d.timeSignature.Proper := by
  rw [check] at h
  split_ifs at h with htempo htime hduration
  have ⟨hn, hd⟩ := not_or.mp htime
  exact ⟨value_nonneg_of_not_le htempo, by omega, by omega⟩

theorem Defaults.check_default : Defaults.check {} = .ok {} := by
  rw [check, if_neg (by decide), if_neg (by decide), if_pos (by decide)]

namespace Segmenting

/-- What holds makes sense, and so does every block. -/
structure Proper (g : Segmenting) : Prop where
  /-- The tempo is not negative. -/
  tempo : 0 ≤ value g.tempo
  /-- The time signature is not negative. -/
  timeSignature : g.timeSignature.Proper
  /-- The blocks are proper. -/
  blocks : ∀ b ∈ g.blocks, b.Proper

namespace Proper

variable {line : Nat} {g g' : Segmenting} {text : List Char}

theorem applyDirective (hg : g.Proper) (h : (applyDirective line g text).value = .ok g') :
    g'.Proper := by
  obtain ⟨g₁, g₂, h₁, h₂, rfl⟩ := applyDirective_ok h
  have hg₁ : g₁.Proper := by
    obtain rfl | ⟨tempo, hpos, rfl⟩ := setTempo_ok h₁
    · exact hg
    · exact ⟨value_nonneg_of_lt hpos, hg.timeSignature, hg.blocks⟩
  have hg₂ : g₂.Proper := by
    obtain rfl | ⟨n, d, hn, hd, rfl⟩ := setTimeSignature_ok h₂
    · exact hg₁
    · exact ⟨hg₁.tempo, ⟨Int.natCast_nonneg n, Int.natCast_nonneg d⟩, hg₁.blocks⟩
  refine ⟨hg₂.tempo, hg₂.timeSignature, ?_⟩
  intro b hb
  rcases List.mem_append.mp hb with hb | hb
  · exact hg₂.blocks b (List.mem_append_left _ hb)
  · obtain ⟨c, -, rfl⟩ := Option.map_eq_some_iff.mp (Option.mem_toList.mp hb)
    exact ⟨hg₂.tempo, hg₂.timeSignature⟩

theorem openBlock {header : MeasureHeader} (hg : g.Proper)
    (h : (openBlock line g header).value = .ok g') : g'.Proper := by
  obtain ⟨first, last, -, rfl⟩ := openBlock_ok h
  refine ⟨hg.tempo, hg.timeSignature, ?_⟩
  intro b hb
  rcases List.mem_append.mp hb with hb | hb
  · exact hg.blocks b hb
  · obtain rfl := Option.some.inj (Option.mem_toList.mp hb)
    exact ⟨hg.tempo, hg.timeSignature⟩

theorem addLine (hg : g.Proper) (h : (addLine line g text).value = .ok g') : g'.Proper := by
  obtain rfl | ⟨c, hc, rfl⟩ := addLine_ok h
  · exact hg
  refine ⟨hg.tempo, hg.timeSignature, ?_⟩
  intro b hb
  rcases List.mem_append.mp hb with hb | hb
  · exact hg.blocks b (List.mem_append_left _ hb)
  · obtain rfl := Option.some.inj (Option.mem_toList.mp hb)
    have hproper := hg.blocks c (List.mem_append_right _ (Option.mem_toList.mpr hc))
    exact ⟨hproper.tempo, hproper.timeSignature⟩

theorem readLine {l : Nat × List Char} (hg : g.Proper) (h : (readLine g l).value = .ok g') :
    g'.Proper := by
  rw [Segmenting.readLine] at h
  split_ifs at h
  · obtain rfl := Except.ok.inj h
    exact hg
  · refine step_invariant ?_ openBlock addLine hg h
    intro g _ b _ hg h
    have hg' : Proper { g with inMeta := b } := ⟨hg.tempo, hg.timeSignature, hg.blocks⟩
    exact hg'.applyDirective h

end Proper

end Segmenting

/-- All blocks of a text are proper. -/
theorem Body.proper_segment {defaults : Defaults} {ls : List (Nat × List Char)} {body : Body}
    (hdefaults : defaults.check = .ok defaults) (h : (segment defaults ls).value = .ok body) :
    ∀ b ∈ body.blocks, b.Proper := by
  rw [segment, Noted.value_bind fun _ ↦ .pure _,
    Noted.value_foldlM Segmenting.appends_readLine] at h
  obtain ⟨g, hg, h⟩ := bind_eq_ok h
  obtain rfl := Except.ok.inj h
  obtain ⟨htempo, htime⟩ := Defaults.proper_of_check hdefaults
  have hstart : Segmenting.Proper
      { tempo := defaults.tempo, timeSignature := defaults.timeSignature } :=
    ⟨htempo, htime, fun _ hb ↦ by cases hb⟩
  exact (foldlM_invariant (P := fun _ ↦ Segmenting.Proper) (fun _ _ _ _ hg h ↦ hg.readLine h)
    hstart hg).blocks

end TextScore
