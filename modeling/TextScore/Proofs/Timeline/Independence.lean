import Mathlib.Data.List.Forall2
import TextScore.Proofs.Measure.Assignment
import TextScore.Proofs.Score.Order
import TextScore.Proofs.Timeline.Voice

/-!
# Staves do not hear each other

What an instrument plays depends on its own staff lines only.  If all other ids are deleted from a
score, the instrument plays as before; and whatever is written for the others instead, it still
does.

These are statements about two runs, and there are two ways to compare them.  Deleting the other ids
makes a second score from the first, and its run is followed step by step beside the first one: a
line that is kept is played in both, a line that is dropped is played in the first and changes
nothing that the second one knows.  This also shows that the second run comes to an end.  For two
scores that merely say the same to the instrument there is no correspondence of steps, since the
other lines are arbitrary.  There both runs are compared with what the voice plays alone.

## What is here

* `Block.only` — a block with all ids but one deleted.
* `Assembly.Alone` — what the runs have in common at each step.
* `Timeline.alone_ofBlocks` — the timeline of the other ids deleted holds just the notes of the one.
* `Block.SameFor` — two blocks say the same to an instrument.
* `Timeline.notesOf_eq_of_sameFor` — two scores that do make it play the same.
* `Timeline.independent_ofBlocks` — both together.

A block takes its measures' time whatever is played in it, and that is what keeps the staves apart
over the ends of blocks: nothing that the others play moves the start of the next block.
-/

set_option autoImplicit false

namespace TextScore

open Text Number

/-! ## Deleting ids

Deleting an id is done on the text of the line, and the line is read again; that what is read then
is the old reading without the id is a fact about the notation. -/

/-- A staff line with all ids but one deleted; nothing if no id is left. -/
def onlyLine (id : String) (l : Nat × List Char) : Option (Nat × List Char) :=
  match Assignment.read? l.2 with
  | none => some l
  | some s =>
    let ids := s.ids.filter fun k ↦ String.ofList k = id
    if ids.isEmpty then none else some (l.1, { s with ids }.line)

/-- A block with all ids but one deleted from its staff lines; lines without ids are dropped. -/
def Block.only (id : String) (b : Block) : Block :=
  { b with lines := b.lines.filterMap (onlyLine id) }

theorem Assignment.WellFormed.filter {s : Assignment} (h : s.WellFormed) {p : List Char → Bool}
    (hp : s.ids.filter p ≠ []) : { s with ids := s.ids.filter p }.WellFormed where
  ids_ne_nil := hp
  id_ne_nil := fun id hid ↦ h.id_ne_nil id ((List.mem_filter.mp hid).1)
  word := fun id hid ↦ h.word id ((List.mem_filter.mp hid).1)
  oneLine := h.oneLine
  trimmed := h.trimmed

/-- What is left of a line. -/
theorem onlyLine_eq_some {id : String} {l l' : Nat × List Char} (h : onlyLine id l = some l') :
    l'.1 = l.1 ∧ ((Assignment.read? l.2 = none ∧ Assignment.read? l'.2 = none) ∨
      ∃ s, Assignment.read? l.2 = some s ∧ Assignment.read? l'.2 =
        some { s with ids := s.ids.filter fun k ↦ String.ofList k = id }) := by
  rw [onlyLine] at h
  cases hl : Assignment.read? l.2 with
  | none =>
    rw [hl] at h
    cases h
    exact ⟨rfl, .inl ⟨rfl, hl⟩⟩
  | some s =>
    rw [hl] at h
    dsimp only at h
    split at h
    case isTrue => cases h
    case isFalse hids =>
      cases h
      rw [List.isEmpty_iff] at hids
      exact ⟨rfl, .inr ⟨s, rfl,
        Assignment.read?_line ((Assignment.wellFormed_of_read? hl).filter hids)⟩⟩

theorem onlyLine_eq_none {id : String} {l : Nat × List Char} (h : onlyLine id l = none) :
    ∃ s, Assignment.read? l.2 = some s ∧ ∀ k ∈ s.ids, String.ofList k ≠ id := by
  rw [onlyLine] at h
  cases hl : Assignment.read? l.2 with
  | none =>
    rw [hl] at h
    cases h
  | some s =>
    rw [hl] at h
    dsimp only at h
    split at h
    case isTrue hids =>
      rw [List.isEmpty_iff, List.filter_eq_nil_iff] at hids
      exact ⟨s, rfl, fun k hk hid ↦ hids k hk (decide_eq_true hid)⟩
    case isFalse => cases h

/-! ## Playing alone

`Alone` relates the two states.  The events of the second one are the notes of the instrument in the
first, everything else that the instrument can see is the same. -/

namespace Assembly

/-- In the second state one instrument plays alone what it plays among others in the first. -/
structure Alone (start : Float) (id : String) (a a' : Assembly) : Prop where
  /-- It is the same instrument. -/
  player : a'.ensemble.player id = a.ensemble.player id
  /-- Its staff remembers the same. -/
  memory : a'.ensemble.memory id = a.ensemble.memory id
  /-- Its notes are all that there is. -/
  events : a'.events = notesOf id a.events
  /-- It stands at the same place of the block. -/
  position : a'.position start id = a.position start id

namespace Alone

variable {macros : Macro.Table} {b : Block} {start : Float} {m : Meter} {id : String}
  {a a' a₁ : Assembly}

theorem voice_eq (h : Alone start id a a') :
    (⟨a'.ensemble.memory id, a'.position start id, a'.events⟩ : Playing) = a.voice start id := by
  rw [voice, h.memory, h.events, h.position]

/-- At the start of a block all staves stand at its start. -/
theorem reset (h : Alone start id a a') (start' : Float) :
    Alone start' id { a with positions := ∅ } { a' with positions := ∅ } :=
  ⟨h.player, h.memory, h.events, rfl⟩

/-- Its own turn. -/
theorem turn_self (h : Alone start id a a') (hm : b.meter start = .ok m) {line : Nat}
    {ts : List Token} (ha : (playStaff line b start ts a id).value = .ok a₁) :
    ∃ a₁', (playStaff line b start ts a' id).value = .ok a₁' ∧ Alone start id a₁ a₁' := by
  have hplays := plays_playStaff hm ha id
  have hvoice := hplays.voice
  rw [if_pos rfl, ← h.voice_eq, ← h.player] at hvoice
  refine ⟨a'.afterTurn id (a₁.voice start id), ?_, ?_, ?_, ?_, ?_⟩
  · rw [playStaff_value, hm, ok_bind, hvoice]
    rfl
  · rw [afterTurn, Ensemble.player_afterTurn, h.player, hplays.player]
  · rw [afterTurn, Ensemble.memory_afterTurn_self]
    rfl
  · rfl
  · show ((a'.positions.put id _).get? id).getD _ = _
    rw [OrderedMap.get?_put_self]
    rfl

/-- The turn of another instrument. -/
theorem turn_other (h : Alone start id a a') (hm : b.meter start = .ok m) {line : Nat}
    {ts : List Token} {k : String} (hk : k ≠ id)
    (ha : (playStaff line b start ts a k).value = .ok a₁) : Alone start id a₁ a' := by
  have hplays := plays_playStaff hm ha id
  have hvoice := hplays.voice
  rw [if_neg hk, Playing.play_nil] at hvoice
  have hvoice' := Except.ok.inj hvoice
  refine ⟨h.player.trans hplays.player.symm, h.memory.trans ?_, h.events.trans ?_,
    h.position.trans ?_⟩
  · exact congrArg Playing.staff hvoice'
  · exact congrArg Playing.events hvoice'
  · exact congrArg Playing.position hvoice'

/-- The turns of a staff line, with the other ids deleted. -/
theorem turns (h : Alone start id a a') (hm : b.meter start = .ok m) {line : Nat}
    {ts : List Token} {ks : List String}
    (ha : ks.foldlM (fun a k ↦ (playStaff line b start ts a k).value) a = .ok a₁) :
    ∃ a₁', (ks.filter (· = id)).foldlM (fun a k ↦ (playStaff line b start ts a k).value) a' =
      .ok a₁' ∧ Alone start id a₁ a₁' := by
  rw [← List.filterMap_eq_filter]
  refine foldlM_filterMap_sim (R := Alone start id) ?_ ?_ h ha
  · intro _ _ _ _ _ hk hs ha
    obtain ⟨rfl, hid⟩ := Option.guard_eq_some_iff.mp hk
    rw [of_decide_eq_true hid] at ha ⊢
    exact hs.turn_self hm ha
  · intro _ _ _ _ hk hs ha
    rw [Option.guard_eq_none_iff] at hk
    exact hs.turn_other hm (of_decide_eq_false hk) ha

/-- A staff line that is kept. -/
theorem line_kept (h : Alone start id a a') (hm : b.meter start = .ok m) {l l' : Nat × List Char}
    (hl : onlyLine id l = some l') (ha : (playLine macros b start a l).value = .ok a₁) :
    ∃ a₁', (playLine macros b start a' l').value = .ok a₁' ∧ Alone start id a₁ a₁' := by
  obtain ⟨hline, hread⟩ := onlyLine_eq_some hl
  rw [playLine] at ha ⊢
  rw [hline]
  rcases hread with ⟨hread, hread'⟩ | ⟨s, hread, hread'⟩
  · rw [hread] at ha
    rw [hread']
    cases ha
    exact ⟨a', rfl, h⟩
  · rw [hread] at ha
    rw [hread']
    dsimp only at ha ⊢
    rw [Noted.value_bind fun ts ↦ .foldlM (appends_playStaff l.1 b start ts) _ _] at ha
    rw [Noted.value_bind fun ts ↦ .foldlM (appends_playStaff l.1 b start ts) _ _]
    rw [tokens_value] at ha ⊢
    obtain ⟨ts, hts, ha⟩ := bind_eq_ok ha
    rw [Noted.value_foldlM (appends_playStaff l.1 b start ts)] at ha
    obtain ⟨a₁', ha', halone⟩ := h.turns hm ha
    refine ⟨a₁', ?_, halone⟩
    rw [hts, ok_bind, Noted.value_foldlM (appends_playStaff l.1 b start ts), ← ha', List.filter_map]
    rfl

/-- A staff line that is dropped. -/
theorem line_dropped (h : Alone start id a a') (hm : b.meter start = .ok m) {l : Nat × List Char}
    (hl : onlyLine id l = none) (ha : (playLine macros b start a l).value = .ok a₁) :
    Alone start id a₁ a' := by
  obtain ⟨s, hread, hids⟩ := onlyLine_eq_none hl
  rw [playLine, hread] at ha
  dsimp only at ha
  rw [Noted.value_bind fun ts ↦ .foldlM (appends_playStaff l.1 b start ts) _ _] at ha
  obtain ⟨ts, -, ha⟩ := bind_eq_ok ha
  rw [Noted.value_foldlM (appends_playStaff l.1 b start ts)] at ha
  obtain ⟨a₁', ha', halone⟩ := h.turns hm ha
  have hnone : (s.ids.map String.ofList).filter (· = id) = [] := by
    rw [List.filter_eq_nil_iff, List.forall_mem_map]
    exact fun k hk hid ↦ hids k hk (of_decide_eq_true hid)
  rw [hnone] at ha'
  cases ha'
  exact halone

/-- A block. -/
theorem block (h : Alone start id a a') {start' : Float} (hm : b.meter start' = .ok m)
    (ha : (playBlock macros a b start').value = .ok a₁) :
    ∃ a₁', (playBlock macros a' (b.only id) start').value = .ok a₁' ∧
      Alone start' id a₁ a₁' := by
  rw [playBlock, Noted.value_foldlM (appends_playLine macros b start')] at ha
  rw [playBlock, Noted.value_foldlM (appends_playLine macros (b.only id) start')]
  exact foldlM_filterMap_sim (R := Alone start' id) (fun hl hs ha ↦ hs.line_kept hm hl ha)
    (fun hl hs ha ↦ hs.line_dropped hm hl ha) (h.reset start') ha

end Alone

end Assembly

namespace Timeline

variable {macros : Macro.Table} {e e' : Ensemble} {bs bs' : List Block} {b b' : Block}
  {t t' t₁ t₁' : Timeline} {id : String}

/-- In the second timeline one instrument plays alone what it plays among others in the first. -/
structure Alone (id : String) (t t' : Timeline) : Prop where
  /-- The next block starts at the same time. -/
  start : t'.secondsOffset = t.secondsOffset
  /-- The instrument has played the same. -/
  assembly : Assembly.Alone t.secondsOffset id { t.assembly with positions := ∅ }
    { t'.assembly with positions := ∅ }

theorem Alone.addBlock (h : Alone id t t') (ht : (addBlock macros t b).value = .ok t₁) :
    ∃ t₁', (Timeline.addBlock macros t' (b.only id)).value = .ok t₁' ∧ Alone id t₁ t₁' := by
  obtain ⟨m, -, hm, -⟩ := addBlock_ok ht
  rw [addBlock_value] at ht
  obtain ⟨a, ha, ht⟩ := bind_eq_ok ht
  obtain ⟨beats, hbeats, ht⟩ := bind_eq_ok ht
  obtain ⟨beat, hbeat, ht⟩ := bind_eq_ok ht
  obtain rfl := Except.ok.inj ht
  obtain ⟨a', ha', halone⟩ := h.assembly.block hm ha
  have hbeats' : (b.only id).beats = .ok beats := hbeats
  have hbeat' : (b.only id).beatSeconds = .ok beat := hbeat
  have hblock : (t'.assembly.playBlock macros (b.only id) t'.secondsOffset).value = .ok a' := by
    rw [h.start]
    exact ha'
  refine ⟨⟨a', t'.beatOffset + beats, t'.secondsOffset + beats * beat⟩, ?_, ?_, halone.reset _⟩
  · rw [addBlock_value, hblock, ok_bind, hbeats', ok_bind, hbeat']
    rfl
  · rw [h.start]

/-- With all other ids deleted an instrument plays as before. -/
theorem alone_ofBlocks (h : (ofBlocks macros e bs).value = .ok t) (id : String) :
    ∃ t', (ofBlocks macros e (bs.map (Block.only id))).value = .ok t' ∧ Alone id t t' := by
  rw [ofBlocks_value] at h
  rw [ofBlocks_value, ← List.filterMap_eq_map]
  have hnew : Alone id { assembly := { ensemble := e } } { assembly := { ensemble := e } } :=
    ⟨rfl, rfl, rfl, rfl, rfl⟩
  refine foldlM_filterMap_sim (R := Alone id) ?_ ?_ hnew h
  · rintro _ _ _ _ _ ⟨⟩ hs ht
    exact hs.addBlock ht
  · rintro _ _ _ _ ⟨⟩

end Timeline

/-! ## Scores that say the same to an instrument

Line numbers do not count, and lines that do not name the instrument do not either; the measures,
the tempo and the time signature of each block do. -/

/-- In the turns of a line an instrument plays the same with the other ids deleted. -/
theorem flatMap_filter_own (id : String) (ts : List Token) (ks : List (List Char)) :
    ((ks.filter fun k ↦ String.ofList k = id).map String.ofList).flatMap
        (fun k ↦ if k = id then ts else []) =
      (ks.map String.ofList).flatMap fun k ↦ if k = id then ts else [] := by
  induction ks with
  | nil => rfl
  | cons k ks ih =>
    rw [List.map_cons, List.flatMap_cons, ← ih, List.filter_cons]
    by_cases hk : String.ofList k = id
    · rw [if_pos (decide_eq_true hk), List.map_cons, List.flatMap_cons]
    · rw [if_neg (by rwa [decide_eq_true_eq]), if_neg hk, List.nil_append]

/-- What an instrument plays on a line is what it plays on what is left of the line. -/
theorem linePart_eq_elim (macros : Macro.Table) (id : String) (l : Nat × List Char) :
    linePart macros id l = (onlyLine id l).elim [] (linePart macros id) := by
  cases hl : onlyLine id l with
  | none =>
    obtain ⟨s, hread, hids⟩ := onlyLine_eq_none hl
    rw [linePart, hread, Option.elim_none, List.flatMap_eq_nil_iff, List.forall_mem_map]
    exact fun k hk ↦ if_neg (hids k hk)
  | some l' =>
    obtain ⟨-, hread⟩ := onlyLine_eq_some hl
    rw [Option.elim_some, linePart, linePart]
    rcases hread with ⟨hread, hread'⟩ | ⟨s, hread, hread'⟩
    · rw [hread, hread']
    · rw [hread, hread']
      exact (flatMap_filter_own id _ s.ids).symm

theorem Block.part_only (macros : Macro.Table) (id : String) (b : Block) :
    (b.only id).part macros id = b.part macros id := by
  rw [part, part, only]
  dsimp only
  induction b.lines with
  | nil => rfl
  | cons l ls ih =>
    rw [List.flatMap_cons, linePart_eq_elim, ← ih]
    cases hl : onlyLine id l with
    | none => rw [List.filterMap_cons_none hl, Option.elim_none, List.nil_append]
    | some l' => rw [List.filterMap_cons_some hl, List.flatMap_cons, Option.elim_some]

/-- Two blocks say the same to an instrument: they have the same measures, and what is left of
their lines without the other ids is the same, whatever numbers the lines have. -/
structure Block.SameFor (id : String) (b b' : Block) : Prop where
  /-- The first measure. -/
  first : b'.first = b.first
  /-- The last measure. -/
  last : b'.last = b.last
  /-- The tempo. -/
  tempo : b'.tempo = b.tempo
  /-- The time signature. -/
  timeSignature : b'.timeSignature = b.timeSignature
  /-- The lines of the instrument. -/
  lines : (b'.only id).lines.map Prod.snd = (b.only id).lines.map Prod.snd

namespace Block.SameFor

variable {id : String} {b b' : Block}

theorem meter (h : SameFor id b b') (start : Float) : b'.meter start = b.meter start := by
  rw [Block.meter, Block.meter, beatSeconds, beatSeconds, measureBeats, measureBeats, h.tempo,
    h.timeSignature]

theorem seconds (h : SameFor id b b') : b'.seconds = b.seconds := by
  rw [Block.seconds, Block.seconds, beats, beats, measureBeats, measureBeats, measureCount,
    measureCount, beatSeconds, beatSeconds, h.first, h.last, h.tempo, h.timeSignature]

theorem part (h : SameFor id b b') (macros : Macro.Table) :
    b'.part macros id = b.part macros id := by
  have hpart (ls : List (Nat × List Char)) :
      ls.flatMap (linePart macros id) =
        (ls.map Prod.snd).flatMap fun text ↦ linePart macros id (0, text) := by
    rw [List.flatMap_map]
    rfl
  rw [← part_only, ← part_only macros id b, Block.part, Block.part, hpart, hpart, h.lines]

end Block.SameFor

namespace Timeline

/-- In both timelines an instrument has played the same. -/
structure SameFor (id : String) (t t' : Timeline) : Prop where
  /-- The next block starts at the same time. -/
  start : t'.secondsOffset = t.secondsOffset
  /-- It is the same instrument. -/
  player : t'.assembly.ensemble.player id = t.assembly.ensemble.player id
  /-- Its staff remembers the same. -/
  memory : t'.assembly.ensemble.memory id = t.assembly.ensemble.memory id
  /-- Its notes are the same. -/
  notes : notesOf id t'.assembly.events = notesOf id t.assembly.events

theorem SameFor.addBlock {macros : Macro.Table} {id : String} {b b' : Block}
    {t t' t₁ t₁' : Timeline} (h : SameFor id t t') (hb : b.SameFor id b')
    (ht : (addBlock macros t b).value = .ok t₁) (ht' : (addBlock macros t' b').value = .ok t₁') :
    SameFor id t₁ t₁' := by
  obtain ⟨m, seconds, hm, hseconds, hoffset, hplays⟩ := addBlock_ok ht
  obtain ⟨m', seconds', hm', hseconds', hoffset', hplays'⟩ := addBlock_ok ht'
  rw [hb.seconds, hseconds] at hseconds'
  rw [h.start, hb.meter, hm] at hm'
  obtain rfl := Except.ok.inj hseconds'
  obtain rfl := Except.ok.inj hm'
  have hvoice := (hplays id).voice
  have hvoice' := (hplays' id).voice
  -- the voice sees the clock, its staff and its own notes, and these are the same
  have hsame : ({ t'.assembly with positions := ∅ } : Assembly).voice t'.secondsOffset id =
      ({ t.assembly with positions := ∅ } : Assembly).voice t.secondsOffset id := by
    rw [Assembly.voice, Assembly.voice, h.start]
    dsimp only
    rw [h.memory, h.notes]
    rfl
  have hplayer : ({ t'.assembly with positions := ∅ } : Assembly).ensemble.player id =
      ({ t.assembly with positions := ∅ } : Assembly).ensemble.player id := h.player
  rw [hsame, hplayer, hb.part, hvoice] at hvoice'
  have hend := Except.ok.inj hvoice'
  refine ⟨?_, ?_, ?_, ?_⟩
  · rw [hoffset, hoffset', h.start]
  · rw [(hplays id).player, (hplays' id).player, hplayer]
  · exact (congrArg Playing.staff hend).symm
  · exact (congrArg Playing.events hend).symm

/-- Scores that say the same to an instrument make it play the same. -/
theorem notesOf_eq_of_sameFor {macros : Macro.Table} {id : String} {e e' : Ensemble}
    {bs bs' : List Block} {t t' : Timeline} (hplayer : e'.player id = e.player id)
    (hmemory : e'.memory id = e.memory id) (hbs : List.Forall₂ (Block.SameFor id) bs bs')
    (h : (ofBlocks macros e bs).value = .ok t) (h' : (ofBlocks macros e' bs').value = .ok t') :
    notesOf id t'.assembly.events = notesOf id t.assembly.events := by
  rw [ofBlocks_value] at h h'
  have hnew : SameFor id { assembly := { ensemble := e } } { assembly := { ensemble := e' } } :=
    ⟨rfl, hplayer, hmemory, rfl⟩
  -- the induction needs any two timelines that are the same for the instrument
  suffices hgen : ∀ s s', SameFor id s s' →
      bs.foldlM (fun t b ↦ (addBlock macros t b).value) s = .ok t →
      bs'.foldlM (fun t b ↦ (addBlock macros t b).value) s' = .ok t' → SameFor id t t' from
    (hgen _ _ hnew h h').notes
  clear h h' hnew
  induction hbs with
  | nil =>
    intro s s' hs h h'
    cases h
    cases h'
    exact hs
  | cons hb _ ih =>
    intro s s' hs h h'
    obtain ⟨s₁, h₁, h⟩ := foldlM_cons_ok h
    obtain ⟨s₁', h₁', h'⟩ := foldlM_cons_ok h'
    exact ih s₁ s₁' (hs.addBlock hb h₁ h₁') h h'

/-! ## Independence -/

/-- An instrument does not hear the others.  With all other ids deleted from the staff lines the
score can be played too, and its notes are those that the instrument had, also in the order of time
if all starts are numbers.  And whatever score says the same to the instrument, and for whatever
ensemble, the instrument plays the same. -/
structure Independent (macros : Macro.Table) (e : Ensemble) (bs : List Block) (t : Timeline)
    (id : String) : Prop where
  /-- Without the others. -/
  alone : ∃ t', (ofBlocks macros e (bs.map (Block.only id))).value = .ok t' ∧
    t'.assembly.events = notesOf id t.assembly.events ∧
    ((∀ n ∈ t.assembly.events, n.start.isNaN = false) →
      (t.assembly.events.toList.mergeSort NoteEvent.notAfter).filter (·.instrumentId = id) =
        t'.assembly.events.toList.mergeSort NoteEvent.notAfter)
  /-- Among others. -/
  among : ∀ e' bs' t', e'.player id = e.player id → e'.memory id = e.memory id →
    List.Forall₂ (Block.SameFor id) bs bs' → (ofBlocks macros e' bs').value = .ok t' →
    notesOf id t'.assembly.events = notesOf id t.assembly.events

/-- **Staves are independent**, in every score that can be played and for every instrument.  Only
the order of time asks for more: among starts that are no numbers a sort has no order to go by, and
then it may leave the notes of one instrument differently when others stand between them. -/
theorem independent_ofBlocks {macros : Macro.Table} {e : Ensemble} {bs : List Block} {t : Timeline}
    (h : (ofBlocks macros e bs).value = .ok t) (id : String) : Independent macros e bs t id where
  alone := by
    obtain ⟨t', ht', halone⟩ := alone_ofBlocks h id
    have hevents : t'.assembly.events = notesOf id t.assembly.events := halone.assembly.events
    refine ⟨t', ht', hevents, ?_⟩
    intro hnumbers
    rw [hevents, notesOf, Array.toList_filter,
      NoteEvent.filter_mergeSort_notAfter fun n hn ↦ hnumbers n (Array.mem_def.mpr hn)]
  among := fun _ _ _ hplayer hmemory hbs h' ↦ notesOf_eq_of_sameFor hplayer hmemory hbs h h'

/-- Two instruments that share a line, one of them with a line of its own. -/
theorem independent_ofBlocks_shared_line :
    ∃ t, (ofBlocks ∅ { defaults := {} } [⟨1, 1, 120, ⟨4, 4⟩,
        [(2, "p, q: c5:8 d | e".toList), (3, "q: f".toList)]⟩]).value = .ok t ∧
      Independent ∅ { defaults := {} } [⟨1, 1, 120, ⟨4, 4⟩,
        [(2, "p, q: c5:8 d | e".toList), (3, "q: f".toList)]⟩] t "p" := by
  obtain ⟨t, ht⟩ := exists_ok (x := (ofBlocks ∅ { defaults := {} } [⟨1, 1, 120, ⟨4, 4⟩,
    [(2, "p, q: c5:8 d | e".toList), (3, "q: f".toList)]⟩]).value) (by decide +kernel)
  exact ⟨t, ht, independent_ofBlocks ht "p"⟩

end Timeline

end TextScore
