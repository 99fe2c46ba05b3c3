import TextScore.Proofs.Measure.Segment
import TextScore.Proofs.Timeline.History

/-!
# Time goes forward

No note of a compiled score starts before zero, and none lasts less than nothing.

For times that are sums and products of positive numbers this would not be worth a proof.  With
doubles it is a little more: sums can lose everything to rounding and products can overflow, though
neither turns a number negative.  What is not a number is not negative either.  So the statement is
about the value of a double, which for infinity is beyond all numbers, and it survives all
operations that the timeline uses.

## What is here

* `Meter.Forward` — no time of a meter is negative.
* `Block.Lasting` — a block that lasts, with nothing negative in it.
* `forward_wanted` — no time of a wanted note is negative.
* `Draft.forward_ofText` — nor is one of a compiled note.
-/

set_option autoImplicit false

namespace TextScore

open Text Number

/-! ## Blocks -/

/-- No time of a meter is negative. -/
structure Meter.Forward (m : Meter) : Prop where
  /-- The start of the block. -/
  start : 0 ≤ value m.start
  /-- The length of a beat. -/
  beat : 0 ≤ value m.beat
  /-- The length of a measure. -/
  measure : 0 ≤ value m.measure

theorem Meter.Forward.base {m : Meter} (h : m.Forward) (barlines : Nat) :
    0 ≤ value (m.base barlines) := by
  rw [Meter.base]
  split_ifs
  · exact h.start
  · exact value_add_nonneg h.start (value_mul_nonneg (value_ofNat_nonneg barlines) h.measure)

namespace Block.Proper

variable {b : Block}

theorem beatSeconds (hb : b.Proper) {x : Float} (h : b.beatSeconds = .ok x) : 0 ≤ value x := by
  have hsixty : (0 : Float) ≤ 60 := by decide
  exact value_divide_nonneg (value_nonneg_of_le hsixty) hb.tempo h

theorem measureBeats (hb : b.Proper) {x : Float} (h : b.measureBeats = .ok x) : 0 ≤ value x := by
  obtain ⟨denominator, hdenominator, h⟩ := bind_eq_ok h
  obtain ⟨beat, hbeat, h⟩ := bind_eq_ok h
  obtain ⟨numerator, hnumerator, h⟩ := bind_eq_ok h
  obtain rfl := Except.ok.inj h
  have hfour : (0 : Float) ≤ 4 := by decide
  refine value_mul_nonneg (value_ofInt_nonneg hb.timeSignature.1 hnumerator) ?_
  exact value_divide_nonneg (value_nonneg_of_le hfour)
    (value_ofInt_nonneg hb.timeSignature.2 hdenominator) hbeat

theorem meter (hb : b.Proper) {start : Float} {m : Meter} (hstart : 0 ≤ value start)
    (h : b.meter start = .ok m) : m.Forward := by
  obtain ⟨beat, hbeat, h⟩ := bind_eq_ok h
  obtain ⟨beats, hbeats, h⟩ := bind_eq_ok h
  obtain rfl := Except.ok.inj h
  exact ⟨hstart, hb.beatSeconds hbeat,
    value_mul_nonneg (hb.measureBeats hbeats) (hb.beatSeconds hbeat)⟩

theorem seconds (hb : b.Proper) {x : Float} (h : b.seconds = .ok x) : 0 ≤ value x := by
  obtain ⟨beats, hbeats, h⟩ := bind_eq_ok h
  obtain ⟨beat, hbeat, h⟩ := bind_eq_ok h
  obtain rfl := Except.ok.inj h
  obtain ⟨perMeasure, hperMeasure, hbeats⟩ := bind_eq_ok hbeats
  obtain ⟨count, hcount, hbeats⟩ := bind_eq_ok hbeats
  obtain rfl := Except.ok.inj hbeats
  have hcount' : 0 ≤ b.measureCount := zero_le_one.trans (le_max_left _ _)
  exact value_mul_nonneg
    (value_mul_nonneg (value_ofInt_nonneg hcount' hcount) (hb.measureBeats hperMeasure))
    (hb.beatSeconds hbeat)

end Block.Proper

/-- A block that lasts, and with nothing negative in it. -/
structure Block.Lasting (b : Block) : Prop extends b.Proper where
  /-- It lasts. -/
  seconds : ∃ x, b.seconds = .ok x

theorem Block.Lasting.timing {b : Block} (hb : b.Lasting) {start : Float}
    (hstart : 0 ≤ value start) : (b.timing start).Forward := by
  obtain ⟨x, hx⟩ := hb.seconds
  exact hb.meter hstart ((seconds_ok hx).2 start)

theorem value_startAfter_nonneg {bs : List Block} (hbs : ∀ b ∈ bs, b.Lasting) :
    0 ≤ value (startAfter bs) := by
  induction bs using List.reverseRecOn with
  | nil => exact value_zero.ge
  | append_singleton bs b ih =>
    have hb : b.Lasting := hbs b (List.mem_append_right _ (List.mem_singleton_self b))
    obtain ⟨x, hx⟩ := hb.seconds
    rw [startAfter_concat, ← (Block.seconds_ok hx).1]
    exact value_add_nonneg (ih fun c hc ↦ hbs c (List.mem_append_left _ hc))
      (hb.toProper.seconds hx)

/-! ## Clocks -/

theorem value_foldl_add_nonneg {xs : List Float} {start : Float} (hstart : 0 ≤ value start)
    (hxs : ∀ x ∈ xs, 0 ≤ value x) : 0 ≤ value (xs.foldl (· + ·) start) := by
  induction xs generalizing start with
  | nil => exact hstart
  | cons x xs ih =>
    exact ih (value_add_nonneg hstart (hxs x List.mem_cons_self))
      fun y hy ↦ hxs y (List.mem_cons_of_mem x hy)

theorem Duration.value_beats_nonneg (code : String) : 0 ≤ value (beats code) := by
  have htable : ∀ p ∈ table, (0 : Float) ≤ p.2 := by decide +kernel
  have hone : (0 : Float) ≤ 1 := by decide
  rw [beats, beats?]
  cases h : table.lookup code with
  | none => exact value_nonneg_of_le hone
  | some x =>
    obtain ⟨l, r, hl, -⟩ := List.lookup_eq_some_iff.mp h
    refine value_nonneg_of_le (htable (code, x) ?_)
    rw [hl]
    exact List.mem_append_right l List.mem_cons_self

namespace Meter.Forward

variable {m : Meter} (h : m.Forward) (st : Staff)

include h

theorem secondsAt (past : List Token) (code? : Option String) :
    0 ≤ value (st.secondsAt m past code?) :=
  value_mul_nonneg (Duration.value_beats_nonneg _) h.beat

theorem clockAt (before past : List Token) : 0 ≤ value (st.clockAt m before past) := by
  refine value_foldl_add_nonneg (h.base _) ?_
  intro x hx
  obtain ⟨y, -, hy⟩ := List.mem_filterMap.mp hx
  obtain ⟨s, -, rfl⟩ := Option.map_eq_some_iff.mp hy
  exact h.secondsAt st y.1 s.code?

end Meter.Forward

/-! ## Notes -/

/-- No time of a wanted note is negative. -/
def Wanted.Forward (w : Wanted) : Prop := 0 ≤ value w.start ∧ 0 ≤ value w.duration

theorem Meter.Forward.notesAt {m : Meter} (h : m.Forward) (st : Staff) (before ts : List Token) :
    ∀ w ∈ st.notesAt m before ts, w.Forward := by
  intro w hw
  obtain ⟨x, -, hw⟩ := List.mem_flatMap.mp hw
  cases hs : x.2.sound? with
  | none =>
    rw [hs] at hw
    cases hw
  | some s =>
    rw [hs] at hw
    obtain ⟨pitch, -, rfl⟩ := List.mem_map.mp hw
    exact ⟨h.clockAt st before x.1, h.secondsAt st (before ++ x.1) s.code?⟩

/-- No time of a note that is asked for is negative. -/
theorem forward_wanted {macros : Macro.Table} {st : Staff} {id : String} {bs : List Block}
    (hbs : ∀ b ∈ bs, b.Lasting) : ∀ w ∈ wanted macros st id bs, w.Forward := by
  induction bs using List.reverseRecOn with
  | nil => exact fun w hw ↦ by cases hw
  | append_singleton bs b ih =>
    have hbefore : ∀ c ∈ bs, c.Lasting := fun c hc ↦ hbs c (List.mem_append_left _ hc)
    have hb : b.Lasting := hbs b (List.mem_append_right _ (List.mem_singleton_self b))
    intro w hw
    rw [wanted, collectBehind_concat] at hw
    rcases List.mem_append.mp hw with hw | hw
    · exact ih hbefore w hw
    · exact (hb.timing (value_startAfter_nonneg hbefore)).notesAt st _ _ w hw

/-- No time of a note is negative. -/
def NoteEvent.Forward (n : NoteEvent) : Prop := 0 ≤ value n.start ∧ 0 ≤ value n.duration

/-- No time on the timeline of proper blocks is negative. -/
theorem Timeline.forward_ofBlocks {macros : Macro.Table} {e : Ensemble} {bs : List Block}
    {t : Timeline} (hbs : ∀ b ∈ bs, b.Proper) (h : (ofBlocks macros e bs).value = .ok t) :
    ∀ n ∈ t.assembly.events, n.Forward := by
  intro n hn
  have hholds := holds_ofBlocks h n.instrumentId
  have hown : n ∈ (notesOf n.instrumentId t.assembly.events).toList :=
    Array.mem_toList_iff.mpr (Array.mem_filter.mpr ⟨hn, decide_eq_true rfl⟩)
  have htimes := List.mem_map_of_mem (f := fun n : NoteEvent ↦ (n.start, n.duration)) hown
  rw [Wanted.map_times hholds.notes] at htimes
  obtain ⟨w, hw, heq⟩ := List.mem_map.mp htimes
  obtain ⟨hstart, hduration⟩ := Prod.mk.inj heq
  rw [NoteEvent.Forward, ← hstart, ← hduration]
  exact forward_wanted (fun b hb ↦ ⟨hbs b hb, hholds.seconds b hb⟩) w hw

/-- No time of a compiled note is negative. -/
theorem Draft.forward_ofText {defaults : Defaults} {text : List Char} {d : Draft}
    (hdefaults : defaults.check = .ok defaults) (h : (ofText defaults text).value = .ok d) :
    ∀ n ∈ d.events, n.Forward := by
  obtain ⟨e, t, -, hbody, ht, hevents, -⟩ := ofText_ok h
  intro n hn
  rw [hevents, List.mem_mergeSort, Array.mem_toList_iff] at hn
  exact Timeline.forward_ofBlocks (Body.proper_segment hdefaults hbody) ht n hn

end TextScore
