import TextScore.Proofs.Score.Order
import TextScore.Proofs.Score.Stages
import TextScore.Proofs.Timeline.Emission

/-!
# The notes of a score are sorted

The notes of a score are emitted in any order of time: blocks overrun their length, and barlines set
the clock back.  In the score they stand in the order of their starts; notes that start at once
stand as they were emitted.  The score lasts until the last of them ends.

In what order notes are emitted is not read off the program.  It is stated of the blocks: block by
block, line by line, on a line the instruments in their order, and for each of them token by token
and chord by chord (`emission`).  What is emitted is one note for each of these places, and the
score has the same notes, sorted.

Stability is stated for each time by itself: of the notes that start at that time, the sorted list
has the same ones in the same order.  With the starts in order and the notes being the same, there
is no other list that satisfies this.

## What is here

* `NoteEvent.StablySorted` — the same notes in the order of their starts, ties as they were.
* `NoteEvent.stablySorted_mergeSort` — the sort does this.
* `Score.Lasts` — the length of a score is the latest end of its notes.
* `Score.sorted_ofText` — both, for every text that compiles.

If a start is no number, comparing leads to no order, and what the sort makes of the notes is not
looked at.  Infinite starts are numbers in this sense.
-/

set_option autoImplicit false

namespace TextScore

open Number

/-! ## Sorting

Doubles that are equal by comparison have the same value, and the two zeros are equal. -/

namespace NoteEvent

/-- The notes of the first list in the order of their starts. -/
structure StablySorted (emitted sorted : List NoteEvent) : Prop where
  /-- They are the same notes, each as often as before. -/
  perm : sorted.Perm emitted
  /-- They are in the order of their starts. -/
  ordered : sorted.Pairwise fun a b ↦ a.start ≤ b.start
  /-- Notes that start at one time are in the same order as before. -/
  stable : ∀ time : Float,
    sorted.filter (·.start == time) = emitted.filter (·.start == time)

/-- Notes that start at one time are in the order of time. -/
theorem pairwise_filter_start (es : List NoteEvent) (h : ∀ e ∈ es, e.start.isNaN = false)
    (time : Float) :
    (es.filter (·.start == time)).Pairwise fun a b ↦ a.startsBy b = true := by
  refine List.pairwise_of_forall_mem_list fun a ha b hb ↦ ?_
  obtain ⟨ha, hatime⟩ := List.mem_filter.mp ha
  obtain ⟨hb, hbtime⟩ := List.mem_filter.mp hb
  have htime := isNaN_of_beq hatime
  rw [beq_iff (h a ha) htime] at hatime
  rw [beq_iff (h b hb) htime] at hbtime
  rw [startsBy, hatime, hbtime]
  exact decide_eq_true le_rfl

/-- The sort by time is stable if all starts are numbers. -/
theorem stablySorted_mergeSort {es : List NoteEvent} (h : ∀ e ∈ es, e.start.isNaN = false) :
    StablySorted es (es.mergeSort notAfter) where
  perm := List.mergeSort_perm es notAfter
  ordered := by
    rw [mergeSort_notAfter_eq h]
    have hsorted : (es.mergeSort startsBy).Pairwise fun a b ↦ startsBy a b = true := by
      refine List.pairwise_mergeSort ?_ startsBy_total es
      exact fun _ _ _ hab hbc ↦ startsBy_trans hab hbc
    refine hsorted.imp_of_mem fun ha hb hab ↦ ?_
    exact (le_iff (h _ (List.mem_mergeSort.mp ha)) (h _ (List.mem_mergeSort.mp hb))).mpr
      (of_decide_eq_true hab)
  stable time := by
    have hsome : ∀ e ∈ es.filter (·.start == time), e.start.isNaN = false :=
      fun e he ↦ h e (List.mem_filter.mp he).1
    rw [filter_mergeSort_notAfter h, mergeSort_notAfter_eq hsome]
    exact List.mergeSort_of_pairwise (pairwise_filter_start es h time)

end NoteEvent

/-! ## The length of a score

The latest end is found by going through the notes, and an end that is no number is later than none;
so the length is always one of the ends, and the latest if all ends are numbers. -/

namespace Score

/-- The later one of a time and the end of a note. -/
def laterEnd (latest : Float) (n : NoteEvent) : Float :=
  if n.endTime > latest then n.endTime else latest

/-- The latest one of a time and the ends of some notes is one of them. -/
theorem foldl_laterEnd_eq (latest : Float) (ns : List NoteEvent) :
    ns.foldl laterEnd latest = latest ∨ ∃ n ∈ ns, n.endTime = ns.foldl laterEnd latest := by
  induction ns generalizing latest with
  | nil => exact .inl rfl
  | cons n ns ih =>
    rw [List.foldl_cons]
    rcases ih (laterEnd latest n) with h | ⟨k, hk, h⟩
    · rw [h, laterEnd]
      split
      · exact .inr ⟨n, List.mem_cons_self, rfl⟩
      · exact .inl rfl
    · exact .inr ⟨k, List.mem_cons_of_mem n hk, h⟩

theorem le_laterEnd {latest : Float} {n : NoteEvent} (hlatest : latest.isNaN = false)
    (hn : n.endTime.isNaN = false) :
    latest ≤ laterEnd latest n ∧ n.endTime ≤ laterEnd latest n := by
  rw [laterEnd]
  split
  case isTrue hlater =>
    rw [gt_iff_lt, lt_iff hlatest hn] at hlater
    exact ⟨(le_iff hlatest hn).mpr hlater.le, (le_iff hn hn).mpr le_rfl⟩
  case isFalse hlater =>
    rw [gt_iff_lt, lt_iff hlatest hn, not_lt] at hlater
    exact ⟨(le_iff hlatest hlatest).mpr le_rfl, (le_iff hn hlatest).mpr hlater⟩

/-- If all ends are numbers, none of them is later. -/
theorem le_foldl_laterEnd {latest : Float} {ns : List NoteEvent} (hlatest : latest.isNaN = false)
    (h : ∀ n ∈ ns, n.endTime.isNaN = false) :
    latest ≤ ns.foldl laterEnd latest ∧ ∀ n ∈ ns, n.endTime ≤ ns.foldl laterEnd latest := by
  induction ns generalizing latest with
  | nil => exact ⟨(le_iff hlatest hlatest).mpr le_rfl, fun n hn ↦ by cases hn⟩
  | cons n ns ih =>
    obtain ⟨hn, hns⟩ := List.forall_mem_cons.mp h
    obtain ⟨hle, hend⟩ := le_laterEnd hlatest hn
    obtain ⟨hlater, hrest⟩ := ih (isNaN_of_le hle).2 hns
    exact ⟨le_of_le_of_le hle hlater,
      List.forall_mem_cons.mpr ⟨le_of_le_of_le hend hlater, hrest⟩⟩

/-- A score lasts until the last of its notes ends; without notes it lasts no time. -/
structure Lasts (s : Score) : Prop where
  /-- A score without notes. -/
  silent : s.events = [] → s.totalDuration = 0
  /-- The end of a score is the end of a note. -/
  attained : s.events ≠ [] → ∃ n ∈ s.events, n.endTime = s.totalDuration
  /-- No note ends later, if all ends are numbers. -/
  latest : (∀ n ∈ s.events, n.endTime.isNaN = false) →
    ∀ n ∈ s.events, n.endTime ≤ s.totalDuration

/-- The length that is computed is the latest end. -/
theorem lasts_of_lastEnd {s : Score} (h : s.totalDuration = lastEnd s.events) : s.Lasts := by
  cases hs : s.events with
  | nil =>
    rw [hs] at h
    refine ⟨fun _ ↦ h, fun hne ↦ absurd hs hne, fun _ n hn ↦ ?_⟩
    rw [hs] at hn
    cases hn
  | cons n ns =>
    have htotal : s.totalDuration = ns.foldl laterEnd n.endTime := by
      rw [h, hs]
      rfl
    refine ⟨fun hnil ↦ absurd (hs.symm.trans hnil) (List.cons_ne_nil n ns), fun _ ↦ ?_,
      fun hends ↦ ?_⟩
    · rw [htotal, hs]
      rcases foldl_laterEnd_eq n.endTime ns with hfirst | ⟨k, hk, hend⟩
      · exact ⟨n, List.mem_cons_self, hfirst.symm⟩
      · exact ⟨k, List.mem_cons_of_mem n hk, hend⟩
    · rw [hs] at hends ⊢
      obtain ⟨hn, hns⟩ := List.forall_mem_cons.mp hends
      rw [htotal]
      exact List.forall_mem_cons.mpr (le_foldl_laterEnd hn hns)

/-- **A score is sorted.**  What a text that compiles makes its instruments play stands in its score
in the order of the starts, and ties as they were emitted, if all starts are numbers.  The score
lasts until the last of its notes ends. -/
theorem sorted_ofText {defaults : Defaults} {text : String} {s : Score}
    (h : (ofText defaults text).1 = .ok s) (hnumbers : ∀ n ∈ s.events, n.start.isNaN = false) :
    ∃ e body emitted,
      (Ensemble.collect defaults (Draft.prepare text.toList).1).value = .ok e ∧
      (Body.segment defaults (Draft.prepare text.toList).1).value = .ok body ∧
      List.Forall₂ (Cue.Sounds e) (emission (Draft.prepare text.toList).2 e body.blocks) emitted ∧
      NoteEvent.StablySorted emitted s.events ∧ s.Lasts := by
  rw [ofText_fst] at h
  obtain ⟨d, hd, rfl⟩ := map_eq_ok h
  obtain ⟨e, t, he, hbody, ht, hevents, -⟩ := Draft.ofText_ok hd
  refine ⟨e, d.body, t.assembly.events.toList, he, hbody, Timeline.emits_ofBlocks ht, ?_,
    lasts_of_lastEnd rfl⟩
  have hemitted : ∀ n ∈ t.assembly.events.toList, n.start.isNaN = false := by
    intro n hn
    refine hnumbers n ?_
    rw [Draft.score, hevents]
    exact List.mem_mergeSort.mpr hn
  rw [Draft.score, hevents]
  exact NoteEvent.stablySorted_mergeSort hemitted

/-- A timeline that makes a score and on which all notes start at numbers. -/
def hasNumbers (x : Body × Timeline) : Bool :=
  let e := x.2.assembly.ensemble
  (e.groups.mapM (Draft.layout e)).toOption.isSome &&
    x.2.assembly.events.toList.all fun n ↦ !n.start.isNaN

theorem exists_ofText_of_hasNumbers {defaults : Defaults} {text : String}
    (h : (Draft.timelineOf defaults text.toList).toOption.any hasNumbers = true) :
    ∃ s, (ofText defaults text).1 = .ok s ∧ ∀ n ∈ s.events, n.start.isNaN = false := by
  obtain ⟨⟨body, t⟩, ht, hnumbers⟩ := exists_ok_of_any h
  obtain ⟨hgroups, hall⟩ := Bool.and_eq_true_iff.mp hnumbers
  obtain ⟨s, hs, hevents⟩ := exists_ofText ht hgroups
  refine ⟨s, hs, fun n hn ↦ ?_⟩
  rw [hevents, List.mem_mergeSort] at hn
  simpa using List.all_eq_true.mp hall n hn

/-- A measure that overruns its length, a barline that sets the clock back, and notes that start at
once. -/
def overrun : String := "m 1\np: c1 c1 | d\nq: e f\nm 2\np, q: [g a]"

theorem sorted_ofText_overrun : ∃ s, (ofText {} overrun).1 = .ok s ∧
    (∀ n ∈ s.events, n.start.isNaN = false) ∧
    ∃ e body emitted,
      (Ensemble.collect {} (Draft.prepare overrun.toList).1).value = .ok e ∧
      (Body.segment {} (Draft.prepare overrun.toList).1).value = .ok body ∧
      List.Forall₂ (Cue.Sounds e) (emission (Draft.prepare overrun.toList).2 e body.blocks)
        emitted ∧
      NoteEvent.StablySorted emitted s.events ∧ s.Lasts := by
  obtain ⟨s, hs, hnumbers⟩ := exists_ofText_of_hasNumbers
    (show (Draft.timelineOf {} overrun.toList).toOption.any hasNumbers = true by decide +kernel)
  exact ⟨s, hs, hnumbers, sorted_ofText hs hnumbers⟩

end Score

end TextScore
