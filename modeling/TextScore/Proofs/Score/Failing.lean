import TextScore.Proofs.Ensemble.Declared
import TextScore.Proofs.Measure.Segment
import TextScore.Proofs.Timeline.Failing

/-!
# How compiling fails

Malformed score text is reported, and compiling goes on.  What stops it are numbers: a whole number
with more than 4300 digits that has to be read or written, and a number of a block that is too large
for a double.  Instruments that nobody knows, and divisions by zero, stop nothing, as everybody in a
group or on a staff line has an instrument and a staff, and every block has a length.

A fault is a value here, and there is one for each way in which a step can fail.  So it has to be
shown, stage by stage, that no other fault than the two comes out, and for each of the two that the
text gives cause for it.  The cause is stated of the text and its parts and not of the failing step
(`Draft.Overlong`): some transposition, measure number, repeat count or octave has more digits than
can be read.  Repeat counts may also come about in expanding, where digits that stood apart come
together.

An octave is carried from one note to the next, and the notes of an instrument are shifted by its
transposition, so a name may have to be written whose octave is longer than any that is in the text.
That is why octaves are spoken of by the texts of all the pitches of an instrument.

## What is here

* `Declaration.instrument_error`, `Ensemble.collect_error` — declarations fail at a transposition.
* `Body.segment_error` — the body fails at the number of a measure or of a time signature.
* `Draft.Overlong` — a whole number that is too long.
* `Timeline.known_ofBlocks` — everybody in a group or on a staff line is known.
* `Score.Outcomes`, `Score.outcomes_ofText` — what becomes of a text.

What is not modelled is the depth of recursion, which no function here depends on.
-/

set_option autoImplicit false

namespace TextScore

open Text Number

/-! ## Declarations

A transposition is checked for its form before it is read, so only its length can stop it. -/

/-- A declaration fails only at a transposition that is too long. -/
theorem Declaration.instrument_error {d : Declaration} {f : Fault}
    (h : d.instrument.value = .error f) :
    f = .numeralTooLong ∧ ∃ value, d.transpose? = some value ∧ isTransposition value = true ∧
      maxDigits < (dropSign value).2.length := by
  rw [instrument, Noted.value_bind fun _ ↦ .pure _] at h
  rcases bind_eq_error h with h | ⟨n, -, h⟩
  · rw [semitones] at h
    split at h
    case h_1 => cases h
    case h_2 value hvalue =>
      split at h
      case isTrue hread =>
        rw [Noted.value_ofExcept] at h
        obtain ⟨rfl, hlong⟩ := readInt_eq_error h
        exact ⟨rfl, value, hvalue, hread, hlong⟩
      case isFalse => cases h
  · cases h

/-- Collecting the ensemble fails only at a declaration of the text. -/
theorem Ensemble.collect_error {defaults : Defaults} {ls : List (Nat × List Char)} {f : Fault}
    (h : (collect defaults ls).value = .error f) :
    ∃ d ∈ Declaration.ofLines ls, d.instrument.value = .error f := by
  rw [collect, Noted.value_bind fun _ ↦ .pure _, Collecting.foldlM_readLine] at h
  rcases bind_eq_error h with h | ⟨c, -, h⟩
  · obtain ⟨past, m, rest, c, hmarks, -, h⟩ := foldlM_error (map_eq_error h)
    cases m with
    | opened name => cases h
    | closed => cases h
    | declared d =>
      refine ⟨d, ?_, map_eq_error h⟩
      rw [← Mark.filterMap_ofLines, List.mem_filterMap, hmarks]
      exact ⟨.declared d, List.mem_append_right _ List.mem_cons_self, rfl⟩
  · cases h

/-! ## The whole text

The stages come one after the other, and the first fault is that of the text. -/

/-- Compiling a text meets a whole number with more than 4300 digits where it has to be read or
written. -/
inductive Draft.Overlong (defaults : Defaults) (text : List Char) : Prop
  /-- The transposition of a declared instrument. -/
  | transposition {d : Declaration} {value : List Char}
      (hd : d ∈ Declaration.ofLines (prepare text).1) (hvalue : d.transpose? = some value)
      (hread : Declaration.isTransposition value = true)
      (hlong : maxDigits < (dropSign value).2.length)
  /-- A number of a measure, or a number in a time signature. -/
  | clause {c : Clause} (hc : c ∈ Clause.ofLines false (prepare text).1)
      (hlong : c.isReadable = false)
  /-- The count of a repeat on a staff line, as it is written or as a pass has made it. -/
  | count {body : Body} {b : Block} {l : Nat × List Char} {s : Assignment} {i : Nat}
      {g : Repeat.Group} (hbody : (Body.segment defaults (prepare text).1).value = .ok body)
      (hb : b ∈ body.blocks) (hl : l ∈ b.lines) (hs : Assignment.read? l.2 = some s)
      (hg : g ∈ Repeat.innermost (Repeat.pass^[i] ((prepare text).2.expand s.content).1))
      (hlong : maxDigits < g.count.length)
  /-- An octave on a staff line. -/
  | octave {e : Ensemble} {body : Body} {id : String}
      (he : (Ensemble.collect defaults (prepare text).1).value = .ok e)
      (hbody : (Body.segment defaults (prepare text).1).value = .ok body)
      (h : Staff.Unnameable defaults.octave
        (Block.pitchTexts (prepare text).2 body.blocks id) (e.player id).transpose)

theorem Body.segment_error {defaults : Defaults} {ls : List (Nat × List Char)} {f : Fault}
    (h : (segment defaults ls).value = .error f) :
    f = .numeralTooLong ∧ ∃ c ∈ Clause.ofLines false ls, c.isReadable = false := by
  rw [segment_value] at h
  have hrun := map_eq_error h
  rw [Segmenting.run] at hrun
  split at hrun
  case isTrue => cases hrun
  case isFalse hread =>
    rw [List.all_eq_true] at hread
    push Not at hread
    obtain ⟨c, hc, hlong⟩ := hread
    exact ⟨(Except.error.inj hrun).symm, c, hc, Bool.eq_false_of_not_eq_true hlong⟩

/-- Everybody in a group or on a staff line has an instrument and a staff. -/
theorem Timeline.known_ofBlocks {macros : Macro.Table} {e : Ensemble} {ds : List Declaration}
    (he : e.Declares ds) {bs : List Block} {t : Timeline}
    (h : (ofBlocks macros e bs).value = .ok t) {id : String}
    (hid : id ∈ t.assembly.ensemble.groups.flatMap Group.members ∨ id ∈ bs.flatMap Block.ids) :
    (t.assembly.ensemble.instruments.get? id).isSome = true ∧
      (t.assembly.ensemble.staves.get? id).isSome = true := by
  have henrols := enrols_ofBlocks h
  have hkeys := henrols.keys (ds.map Declaration.key) he.keys
  rw [henrols.groups, he.members, Declaration.ids, List.mem_eraseDups] at hid
  have hmem : id ∈ t.assembly.ensemble.instruments.keys := by
    rw [hkeys, List.mem_eraseDups, List.mem_append]
    exact hid
  have hinstrument := (OrderedMap.isSome_get?_iff _ _).mpr hmem
  obtain ⟨i, hi⟩ := Option.isSome_iff_exists.mp hinstrument
  exact ⟨hinstrument, t.assembly.ensemble.staffed id i hi⟩

/-- The layout of a group fails only at a member that nobody knows. -/
theorem Draft.layout_error {e : Ensemble} {g : Group} {f : Fault} (h : layout e g = .error f) :
    ∃ id ∈ g.members, e.instruments.get? id = none := by
  rw [layout] at h
  rcases bind_eq_error h with h | ⟨rows, -, h⟩
  · obtain ⟨id, hid, h⟩ := mapM_error h
    refine ⟨id, hid, ?_⟩
    cases hi : e.instruments.get? id with
    | none => rfl
    | some i =>
      rw [hi] at h
      cases h
  · cases h

/-- What becomes of a text: a score, or one of two faults; and why there is no third one. -/
structure Score.Outcomes (defaults : Defaults) (text : String) : Prop where
  /-- There is a score unless a whole number is too long, or a number of a block is too large. -/
  fault : ∀ f, (Score.ofText defaults text).1 = .error f →
    f = .numeralTooLong ∧ Draft.Overlong defaults text.toList ∨
      f = .integerTooLarge ∧ ∃ body,
        (Body.segment defaults (Draft.prepare text.toList).1).value = .ok body ∧
          ∃ b ∈ body.blocks, b.TooLarge
  /-- Every block has a length. -/
  blocks : ∀ body, (Body.segment defaults (Draft.prepare text.toList).1).value = .ok body →
    ∀ b ∈ body.blocks, b.Positive
  /-- Behind any blocks, everybody in a group or on a staff line has an instrument and a staff. -/
  known : ∀ e, (Ensemble.collect defaults (Draft.prepare text.toList).1).value = .ok e →
    ∀ macros bs t, (Timeline.ofBlocks macros e bs).value = .ok t → ∀ id,
      id ∈ t.assembly.ensemble.groups.flatMap Group.members ∨ id ∈ bs.flatMap Block.ids →
        (t.assembly.ensemble.instruments.get? id).isSome = true ∧
          (t.assembly.ensemble.staves.get? id).isSome = true

namespace Draft

variable {defaults : Defaults} {text : List Char}

/-- Putting the notes in order and laying out the groups never fails. -/
theorem exists_ofTimeline {e : Ensemble} {body : Body} {t : Timeline}
    (he : (Ensemble.collect defaults (prepare text).1).value = .ok e)
    (ht : (Timeline.ofBlocks (prepare text).2 e body.blocks).value = .ok t) :
    ∃ d, (ofTimeline body t).value = .ok d := by
  rw [ofTimeline_value]
  cases hlayout : t.assembly.ensemble.groups.mapM (layout t.assembly.ensemble) with
  | ok groups => exact ⟨_, rfl⟩
  | error f =>
    obtain ⟨g, hg, h⟩ := mapM_error hlayout
    obtain ⟨id, hid, hnone⟩ := layout_error h
    have hknown := Timeline.known_ofBlocks (Ensemble.declares_collect he) ht
      (.inl (List.mem_flatMap.mpr ⟨g, hg, hid⟩))
    rw [hnone] at hknown
    cases hknown.1

/-- The timeline of a text fails only as the text says. -/
theorem timeline_error {e : Ensemble} {body : Body} {f : Fault}
    (hdefaults : defaults.check = .ok defaults)
    (he : (Ensemble.collect defaults (prepare text).1).value = .ok e)
    (hbody : (Body.segment defaults (prepare text).1).value = .ok body)
    (h : (Timeline.ofBlocks (prepare text).2 e body.blocks).value = .error f) :
    f = .numeralTooLong ∧ Overlong defaults text ∨
      f = .integerTooLarge ∧ ∃ b ∈ body.blocks, b.TooLarge := by
  have hbs := Body.positive_segment hdefaults hbody
  cases (Timeline.ends_ofBlocks hbs).fault f h with
  | integerTooLarge hb hlarge => exact .inr ⟨rfl, _, hb, hlarge⟩
  | numeralTooLong hlong =>
    refine .inl ⟨rfl, ?_⟩
    cases hlong with
    | count hb hl hs hg hlong => exact .count hbody hb hl hs hg hlong
    | octave h =>
      rw [(Ensemble.fresh_collect he).memory] at h
      exact .octave he hbody h

/-- A text fails to compile only at a whole number that is too long, or at a block with a number
that is too large. -/
theorem ofText_error {f : Fault} (hdefaults : defaults.check = .ok defaults)
    (h : (ofText defaults text).value = .error f) :
    f = .numeralTooLong ∧ Overlong defaults text ∨
      f = .integerTooLarge ∧ ∃ body, (Body.segment defaults (prepare text).1).value = .ok body ∧
        ∃ b ∈ body.blocks, b.TooLarge := by
  -- the stages in order; the last one never fails
  rw [ofText_value, timelineOf] at h
  cases he : (Ensemble.collect defaults (prepare text).1).value with
  | error e =>
    rw [he] at h
    obtain rfl := Except.error.inj h
    obtain ⟨d, hd, herror⟩ := Ensemble.collect_error he
    obtain ⟨rfl, value, hvalue, hread, hlong⟩ := Declaration.instrument_error herror
    exact .inl ⟨rfl, .transposition hd hvalue hread hlong⟩
  | ok e =>
    rw [he, ok_bind] at h
    cases hbody : (Body.segment defaults (prepare text).1).value with
    | error e =>
      rw [hbody] at h
      obtain rfl := Except.error.inj h
      obtain ⟨rfl, c, hc, hlong⟩ := Body.segment_error hbody
      exact .inl ⟨rfl, .clause hc hlong⟩
    | ok body =>
      rw [hbody, ok_bind] at h
      cases ht : (Timeline.ofBlocks (prepare text).2 e body.blocks).value with
      | error e =>
        rw [ht] at h
        obtain rfl := Except.error.inj h
        refine (timeline_error hdefaults he hbody ht).imp id ?_
        rintro ⟨rfl, hlarge⟩
        exact ⟨rfl, body, rfl, hlarge⟩
      | ok t =>
        obtain ⟨d, hd⟩ := exists_ofTimeline he ht
        rw [ht, ok_bind, pure_bind, hd] at h
        cases h

end Draft

/-- **Compiling fails in two ways only.**  Whatever the text, compiling it yields a score, or stops
at a whole number with more than 4300 digits that has to be read or written, or at a number of a
block that rounds to a double of `2 ^ 1024` or more.  Every block has a measure, a tempo that is not
at or below zero and a positive time signature, and everybody in a group or on a staff line has an
instrument and a staff. -/
theorem Score.outcomes_ofText {defaults : Defaults} (hdefaults : defaults.check = .ok defaults)
    (text : String) : Outcomes defaults text where
  fault := by
    intro f h
    rw [ofText_fst] at h
    exact Draft.ofText_error hdefaults (map_eq_error h)
  blocks := fun _ hbody ↦ Body.positive_segment hdefaults hbody
  known := fun _ he _ _ _ ht _ hid ↦
    Timeline.known_ofBlocks (Ensemble.declares_collect he) ht hid

/-- A time signature of `10 ^ 309` beats, and a measure in which nobody plays. -/
def Score.longMeasure : String :=
  String.ofList ('1' :: (List.replicate 309 '0' ++ "/4\nm 1".toList))

theorem Score.outcomes_ofText_long_measure :
    Defaults.check {} = .ok {} ∧ (ofText {} longMeasure).1 = .error .integerTooLarge ∧
      Outcomes {} longMeasure := by
  refine ⟨Defaults.check_default, ?_, outcomes_ofText Defaults.check_default longMeasure⟩
  -- it is the characters that are compiled: decoding the text takes longer than compiling it
  have hchars : longMeasure.toList = '1' :: (List.replicate 309 '0' ++ "/4\nm 1".toList) :=
    String.toList_ofList
  have hfault : (match (ofText {} longMeasure).1 with
      | .error .integerTooLarge => true
      | _ => false) = true := by
    rw [ofText_fst, hchars]
    decide +kernel
  split at hfault
  case h_1 h => exact h
  case h_2 => cases hfault

end TextScore
