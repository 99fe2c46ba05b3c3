import TextScore.Proofs.Ensemble.Marks
import TextScore.Proofs.Timeline.Voice
import TextScore.Score.Compile

/-!
# The stages of a compilation

Compiling a text is a row of stages: the ensemble, the body, the timeline.  None of them looks at
the notes of another one, so a text that compiles is one for which every stage yields something.

The stages write what they note and report into one journal, each behind what is there already.  A
stage that only writes behind what is there, and does nothing that depends on it, can be looked at
by itself: its value is that from an empty journal, and so is what it notes.  Each step of each
stage is shown to be of this kind (`Appends`), and then a compilation is known by its stages.

This module is where a theorem on texts begins.  It takes a compilation to pieces, and what the
pieces do is said elsewhere.

## What is here

* `Ensemble.fresh_collect` — behind the declarations nobody has played yet.
* `Body.appends_segment`, `Ensemble.appends_collect`, `Timeline.appends_ofBlocks` — the stages.
* `Draft.timelineOf` — the body and the timeline of a text.
* `Draft.ofText_value`, `Draft.ofText_ok` — what the stages of a compilation yield.
* `Score.exists_ofText` — a text compiles if its stages do.
-/

set_option autoImplicit false

namespace TextScore

open Text

/-! ## Declarations

The declarations register instruments and staves, but play nothing. -/

theorem Ensemble.appends_collect (defaults : Defaults) (ls : List (Nat × List Char)) :
    (collect defaults ls).Appends :=
  .bind (.foldlM Collecting.appends_readLine _ _) fun _ ↦ .pure _

/-- Nobody has played yet: every staff is as it starts. -/
structure Ensemble.Fresh (defaults : Defaults) (e : Ensemble) : Prop where
  /-- All staves are new. -/
  memory : ∀ id, e.memory id = defaults.newStaff
  /-- A new staff starts from these. -/
  defaults : e.defaults = defaults

namespace Ensemble.Fresh

variable {defaults : Defaults}

theorem register {e : Ensemble} (h : Fresh defaults e) (i : Instrument) :
    Fresh defaults (e.register i) where
  defaults := h.defaults
  memory := fun id ↦ by
    have hmemory := h.memory id
    by_cases hid : id = i.id
    · have hi : (e.register i).instruments.get? id = some i := by
        rw [hid]
        exact OrderedMap.get?_put_self _ _ _
      have hst : (e.register i).staves.get? id = some e.defaults.newStaff := by
        rw [hid]
        exact OrderedMap.get?_put_self _ _ _
      rw [Ensemble.memory, hi, hst, h.defaults]
      rfl
    · have hi : (e.register i).instruments.get? id = e.instruments.get? id :=
        OrderedMap.get?_put_of_ne hid _ _
      have hst : (e.register i).staves.get? id = e.staves.get? id :=
        OrderedMap.get?_put_of_ne hid _ _
      rw [Ensemble.memory] at hmemory
      rwa [Ensemble.memory, hi, hst]

end Ensemble.Fresh

/-- Behind the declarations nobody has played yet. -/
theorem Ensemble.fresh_collect {defaults : Defaults} {ls : List (Nat × List Char)} {e : Ensemble}
    (h : (collect defaults ls).value = .ok e) : Fresh defaults e := by
  rw [collect, Noted.value_bind fun _ ↦ .pure _] at h
  obtain ⟨c, hc, h⟩ := bind_eq_ok h
  cases h
  have hfresh : Fresh defaults c.ensemble :=
    Collecting.induct (P := fun c ↦ Fresh defaults c.ensemble) (fun _ _ h ↦ h)
      (fun _ _ h ↦ ⟨h.memory, h.defaults⟩) (fun _ _ i h _ ↦ h.register i)
      ⟨fun _ ↦ rfl, rfl⟩ hc
  exact ⟨hfresh.memory, hfresh.defaults⟩

/-! ## The body

Opening a block is cut in two, where the numbers of the range are known. -/

namespace Segmenting

theorem appends_setTempo (line : Nat) (g : Segmenting) (text : List Char) :
    (setTempo line g text).Appends := by
  rw [setTempo]
  cases findTempo? text with
  | none => exact .pure _
  | some t =>
    dsimp only
    split
    · exact .pure _
    · exact .bind (.note _) fun _ ↦ .pure _

theorem appends_setTimeSignature (line : Nat) (g : Segmenting) (text : List Char) :
    (setTimeSignature line g text).Appends := by
  rw [setTimeSignature]
  rcases findTimeSignature? text with _ | ⟨n, d⟩
  · exact .pure _
  · refine .bind (.ofExcept _) fun _ ↦ .bind (.ofExcept _) fun _ ↦ ?_
    split
    · exact .pure _
    · exact .bind (.note _) fun _ ↦ .pure _

theorem appends_applyDirective (line : Nat) (g : Segmenting) (text : List Char) :
    (applyDirective line g text).Appends :=
  .bind (appends_setTempo line g text) fun _ ↦
    .bind (appends_setTimeSignature line _ text) fun _ ↦ .pure _

/-- A block is opened, once its range is known. -/
def openRange (line : Nat) (g : Segmenting) (first last : Nat) : Pass Segmenting := do
  if last < first then report line (.reversedRange first last)
  let last := max first last
  note (.blockOpened first last line)
  return { g with
    closed := g.blocks
    current? := some { first, last, tempo := g.tempo, timeSignature := g.timeSignature } }

theorem openBlock_eq (line : Nat) (g : Segmenting) (h : MeasureHeader) :
    openBlock line g h = (do
      let first ← Noted.ofExcept (Number.readNat h.first)
      let last ← Noted.ofExcept (h.last?.elim (.ok first) Number.readNat)
      openRange line g first last) := by
  rw [openBlock]
  cases h.last? <;> rfl

theorem appends_openRange (line : Nat) (g : Segmenting) (first last : Nat) :
    (openRange line g first last).Appends := by
  rw [openRange]
  dsimp only
  split
  · exact .bind (.note _) fun _ ↦ .bind (.note _) fun _ ↦ .pure _
  · exact .bind (.note _) fun _ ↦ .pure _

theorem appends_openBlock (line : Nat) (g : Segmenting) (h : MeasureHeader) :
    (openBlock line g h).Appends := by
  rw [openBlock_eq]
  exact .bind (.ofExcept _) fun first ↦ .bind (.ofExcept _) fun last ↦
    appends_openRange line g first last

theorem appends_addLine (line : Nat) (g : Segmenting) (text : List Char) :
    (addLine line g text).Appends := by
  rw [addLine]
  split
  · exact .pure _
  split
  · exact .bind (.note _) fun _ ↦ .pure _
  · exact .bind (.note _) fun _ ↦ .pure _
  · exact .pure _

theorem appends_step (line : Nat) (g : Segmenting) (text : List Char) :
    (step line g text).Appends := by
  induction g, text using step.induct with
  | case1 g text h =>
    rw [step, if_pos h]
    exact appends_applyDirective line _ text
  | case2 g text h header hread ih =>
    rw [step, if_neg h]
    split
    case h_1 header' hread' =>
      obtain rfl := Option.some.inj (hread.symm.trans hread')
      refine .bind (appends_openBlock line g header) fun g ↦ ?_
      dsimp only
      split
      · exact .pure _
      · exact ih g
    case h_2 hread' => cases hread.symm.trans hread'
  | case3 g text h hread =>
    rw [step, if_neg h]
    split
    case h_1 header' hread' => cases hread.symm.trans hread'
    case h_2 => exact appends_addLine line g text

theorem appends_readLine (g : Segmenting) (l : Nat × List Char) : (readLine g l).Appends := by
  rw [readLine]
  split
  · exact .pure _
  · exact appends_step _ _ _

end Segmenting

theorem Body.appends_segment (defaults : Defaults) (ls : List (Nat × List Char)) :
    (segment defaults ls).Appends :=
  .bind (.foldlM Segmenting.appends_readLine _ _) fun _ ↦ .pure _

/-! ## The whole compilation

`timelineOf` is a compilation without its notes; concrete scores are computed through it. -/

theorem Timeline.appends_ofBlocks (macros : Macro.Table) (e : Ensemble) (bs : List Block) :
    (ofBlocks macros e bs).Appends :=
  .foldlM (appends_addBlock macros) _ _

namespace Draft

theorem appends_ofTimeline (body : Body) (t : Timeline) : (ofTimeline body t).Appends := by
  rw [ofTimeline]
  dsimp only
  split
  · exact .bind (.note _) fun _ ↦ .bind (.ofExcept _) fun _ ↦ .pure _
  · exact .bind (.ofExcept _) fun _ ↦ .pure _

/-- A draft has the notes of the timeline in the order of time. -/
theorem ofTimeline_value (body : Body) (t : Timeline) :
    (ofTimeline body t).value =
      (t.assembly.ensemble.groups.mapM (layout t.assembly.ensemble)).map fun groups ↦
        { events := t.assembly.events.toList.mergeSort NoteEvent.notAfter
          ensemble := t.assembly.ensemble, groups, body } := by
  have hrest (x : Except Fault (List GroupLayout)) :
      (do return { events := t.assembly.events.toList.mergeSort NoteEvent.notAfter
                   ensemble := t.assembly.ensemble, groups := ← Noted.ofExcept x, body } :
          Pass Draft).value =
        x.map fun groups ↦
          { events := t.assembly.events.toList.mergeSort NoteEvent.notAfter
            ensemble := t.assembly.ensemble, groups, body } := by
    rw [Noted.value_bind fun _ ↦ .pure _, Noted.value_ofExcept]
    cases x <;> rfl
  rw [ofTimeline]
  dsimp only
  split
  · rw [Noted.value_bind fun _ ↦ .bind (.ofExcept _) fun _ ↦ .pure _]
    exact hrest _
  · exact hrest _

/-- The body of a text and its timeline. -/
def timelineOf (defaults : Defaults) (text : List Char) : Except Fault (Body × Timeline) := do
  let e ← (Ensemble.collect defaults (prepare text).1).value
  let body ← (Body.segment defaults (prepare text).1).value
  let t ← (Timeline.ofBlocks (prepare text).2 e body.blocks).value
  return (body, t)

/-- A text compiles if every stage yields something. -/
theorem ofText_value (defaults : Defaults) (text : List Char) :
    (ofText defaults text).value =
      timelineOf defaults text >>= fun x ↦ (ofTimeline x.1 x.2).value := by
  have htimeline (e : Ensemble) (body : Body) : (do
      ofTimeline body (← Timeline.ofBlocks (prepare text).2 e body.blocks)).Appends :=
    .bind (Timeline.appends_ofBlocks _ _ _) fun _ ↦ appends_ofTimeline _ _
  have hbody (e : Ensemble) : (do
      let body ← Body.segment defaults (prepare text).1
      ofTimeline body (← Timeline.ofBlocks (prepare text).2 e body.blocks)).Appends :=
    .bind (Body.appends_segment _ _) (htimeline e)
  rw [ofText, Noted.value_bind fun _ ↦ .bind (Ensemble.appends_collect _ _) hbody, noteMacros,
    Noted.value_forM_note, ok_bind, Noted.value_bind hbody, timelineOf, bind_assoc]
  refine congrArg _ (funext ?_)
  intro e
  rw [Noted.value_bind (htimeline e), bind_assoc]
  refine congrArg _ (funext ?_)
  intro body
  rw [Noted.value_bind (appends_ofTimeline body), bind_assoc]
  rfl

/-- What the stages yield for a text that compiles. -/
theorem ofText_ok {defaults : Defaults} {text : List Char} {d : Draft}
    (h : (ofText defaults text).value = .ok d) :
    ∃ e t, (Ensemble.collect defaults (prepare text).1).value = .ok e ∧
      (Body.segment defaults (prepare text).1).value = .ok d.body ∧
      (Timeline.ofBlocks (prepare text).2 e d.body.blocks).value = .ok t ∧
      d.events = t.assembly.events.toList.mergeSort NoteEvent.notAfter ∧
      d.ensemble = t.assembly.ensemble := by
  rw [ofText_value] at h
  obtain ⟨⟨body, t⟩, ht, h⟩ := bind_eq_ok h
  obtain ⟨e, he, ht⟩ := bind_eq_ok ht
  obtain ⟨body, hbody, ht⟩ := bind_eq_ok ht
  obtain ⟨t, htimeline, ht⟩ := bind_eq_ok ht
  obtain ⟨rfl, rfl⟩ := Prod.mk.inj (Except.ok.inj ht)
  rw [ofTimeline_value] at h
  obtain ⟨groups, -, rfl⟩ := map_eq_ok h
  exact ⟨e, t, he, hbody, htimeline, rfl, rfl⟩

end Draft

/-- The score of a text is made of its draft. -/
theorem Score.ofText_fst (defaults : Defaults) (text : String) :
    (ofText defaults text).1 = (Draft.ofText defaults text.toList).value.map fun d ↦
      d.score (Draft.ofText defaults text.toList).outcome.2 := by
  rw [ofText, Noted.value]
  rcases (Draft.ofText defaults text.toList).outcome with ⟨f | d, j⟩
  · rfl
  · rfl

/-- A text compiles if it has a timeline and all instruments of its groups are known. -/
theorem Score.exists_ofText {defaults : Defaults} {text : String} {body : Body} {t : Timeline}
    (ht : Draft.timelineOf defaults text.toList = .ok (body, t))
    (hgroups : (t.assembly.ensemble.groups.mapM
      (Draft.layout t.assembly.ensemble)).toOption.isSome = true) :
    ∃ s, (ofText defaults text).1 = .ok s ∧
      s.events = t.assembly.events.toList.mergeSort NoteEvent.notAfter := by
  obtain ⟨groups, hgroups⟩ := exists_ok hgroups
  have hdraft := Draft.ofText_value defaults text.toList
  rw [ht, ok_bind, Draft.ofTimeline_value, hgroups] at hdraft
  have hscore := ofText_fst defaults text
  rw [hdraft] at hscore
  exact ⟨_, hscore, rfl⟩

end TextScore
