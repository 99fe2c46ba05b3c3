import TextScore.Proofs.Pitch
import TextScore.Proofs.Score.Order
import TextScore.Proofs.Timeline.Memory

/-!
# The law of transposition

The same blocks are played by two ensembles that differ only in the transposition of one instrument.
Both runs take the same steps: the staves, the clocks and the notes of the others are the same, and
each note of the instrument is as much higher as the transposition is.

What makes the law worth stating is where transposition takes place.  A staff remembers the written
octave, and if it remembered the sounding one, a transposition would be added again with every note
that leaves its octave out.  The law says that it is not: the memory of every staff is the same in
both runs, at every token and in the end.

There is one way in which the runs can differ.  The sounding pitch goes through its name, and a name
needs an octave that is short enough to be written; so the second run comes to an end if and only if
the octaves of its names are.  That is no condition on the score but on the notes of the first run,
and it is stated as such.

## What is here

* `KeepsPace` — two computations side by side.
* `NoteEvent.Shifted`, `Assembly.Shifted` — what is the same in both runs, and what is shifted.
* `Timeline.keepsPace_ofBlocks` — the runs over all blocks.
* `Ensemble.Retuned` — two ensembles that differ in one transposition.
* `Timeline.transposed_ofBlocks` — the law.

The simulation is proved for a shift of every instrument by a number of its own.  That is no harder,
and with all shifts zero it gives the name of every note for free.
-/

set_option autoImplicit false

namespace TextScore

open Text Number

variable {α σ τ ε : Type}

/-! ## Two computations side by side

A plain relation between results would not do, as the second run may fail where the first does not.
`KeepsPace` has a predicate on results of the first run, which says that the second one will not
fail: what is good behind a step was good before it, since notes are only added. -/

/-- A second computation keeps pace with a first one: where the first one yields something good, the
second one yields something, and what both yield is related. -/
structure KeepsPace (good : σ → Prop) (R : σ → σ → Prop) (x x' : Except ε σ) : Prop where
  /-- The second one yields something. -/
  goes : ∀ s, x = .ok s → good s → ∃ s', x' = .ok s'
  /-- What both yield is related. -/
  meets : ∀ s s', x = .ok s → x' = .ok s' → R s s'

namespace KeepsPace

theorem pure {good : σ → Prop} {R : σ → σ → Prop} {s s' : σ} (h : R s s') :
    KeepsPace good R (.ok s : Except ε σ) (.ok s') where
  goes := fun _ _ _ ↦ ⟨s', rfl⟩
  meets := by
    rintro _ _ ⟨⟩ ⟨⟩
    exact h

/-- Two steps, if what is good behind the second was good before it. -/
theorem bind {good : σ → Prop} {R : σ → σ → Prop} {good' : τ → Prop} {R' : τ → τ → Prop}
    {x x' : Except ε σ} {f f' : σ → Except ε τ} (hx : KeepsPace good R x x')
    (hearlier : ∀ s t, f s = .ok t → good' t → good s)
    (hf : ∀ s s', R s s' → KeepsPace good' R' (f s) (f' s')) :
    KeepsPace good' R' (x >>= f) (x' >>= f') where
  goes := by
    intro t h ht
    obtain ⟨s, hs, h⟩ := bind_eq_ok h
    obtain ⟨s', hs'⟩ := hx.goes s hs (hearlier s t h ht)
    obtain ⟨t', ht'⟩ := (hf s s' (hx.meets s s' hs hs')).goes t h ht
    refine ⟨t', ?_⟩
    rw [hs', ok_bind, ht']
  meets := by
    intro t t' h h'
    obtain ⟨s, hs, h⟩ := bind_eq_ok h
    obtain ⟨s', hs', h'⟩ := bind_eq_ok h'
    exact (hf s s' (hx.meets s s' hs hs')).meets t t' h h'

/-- Two computations that begin alike. -/
theorem bind_same {good : τ → Prop} {R : τ → τ → Prop} {x : Except ε σ} {f f' : σ → Except ε τ}
    (hf : ∀ s, KeepsPace good R (f s) (f' s)) : KeepsPace good R (x >>= f) (x >>= f') := by
  have hx : KeepsPace (fun _ ↦ True) Eq x x :=
    ⟨fun s hs _ ↦ ⟨s, hs⟩, fun s s' hs hs' ↦ Except.ok.inj (hs.symm.trans hs')⟩
  refine hx.bind (fun _ _ _ _ ↦ trivial) ?_
  rintro s _ rfl
  exact hf s

/-- Two loops over the same items. -/
theorem foldlM {good : σ → Prop} {R : σ → σ → Prop} {f f' : σ → α → Except ε σ}
    (hearlier : ∀ s a s₁, f s a = .ok s₁ → good s₁ → good s)
    (hstep : ∀ s s' a, R s s' → KeepsPace good R (f s a) (f' s' a)) (as : List α) {s s' : σ}
    (h : R s s') : KeepsPace good R (as.foldlM f s) (as.foldlM f' s') := by
  induction as generalizing s s' with
  | nil => exact pure h
  | cons a as ih =>
    rw [List.foldlM_cons, List.foldlM_cons]
    refine bind (hstep s s' a h) ?_ fun s s' h ↦ ih h
    intro s t ht hgood
    have hback : good t → good s := foldlM_invariant (P := fun _ t ↦ good t → good s)
      (fun _ t a t' h ht hgood ↦ h (hearlier t a t' ht hgood)) id ht
    exact hback hgood

end KeepsPace

/-! ## Shifted notes

Every instrument may be shifted by a number of semitones of its own. -/

/-- The second note is the first one, shifted by as much as its instrument is. -/
structure NoteEvent.Shifted (shift : String → Int) (n n' : NoteEvent) : Prop where
  /-- They start together. -/
  start : n'.start = n.start
  /-- They last as long. -/
  duration : n'.duration = n.duration
  /-- The same instrument plays them. -/
  instrumentId : n'.instrumentId = n.instrumentId
  /-- It has the same name. -/
  instrumentName : n'.instrumentName = n.instrumentName
  /-- They name a pitch and the pitch shifted. -/
  pitch : ∃ p : Pitch, p.name = .ok n.pitch ∧
    (p.transpose (shift n.instrumentId)).name = .ok n'.pitch

/-- The pitch of the note can be shifted: the octave is short enough. -/
def NoteEvent.Shiftable (shift : String → Int) (n : NoteEvent) : Prop :=
  ∃ p : Pitch, p.name = .ok n.pitch ∧
    isWritable (p.transpose (shift n.instrumentId)).octave = true

theorem NoteEvent.Shifted.shiftable {shift : String → Int} {n n' : NoteEvent}
    (h : n.Shifted shift n') : n.Shiftable shift := by
  obtain ⟨p, hp, hp'⟩ := h.pitch
  exact ⟨p, hp, (Pitch.name_ok hp').1⟩

/-- The notes of one array are those of the other, shifted. -/
def ShiftedNotes (shift : String → Int) (es es' : Array NoteEvent) : Prop :=
  List.Forall₂ (NoteEvent.Shifted shift) es.toList es'.toList

/-- All notes can be shifted. -/
def AllShiftable (shift : String → Int) (es : Array NoteEvent) : Prop :=
  ∀ n ∈ es, n.Shiftable shift

theorem ShiftedNotes.allShiftable {shift : String → Int} {es es' : Array NoteEvent}
    (h : ShiftedNotes shift es es') : AllShiftable shift es := by
  rw [ShiftedNotes, List.forall₂_iff_get] at h
  intro n hn
  obtain ⟨k, hk, rfl⟩ := List.mem_iff_getElem.mp (Array.mem_def.mp hn)
  exact (h.2 k hk (h.1 ▸ hk)).shiftable

/-- The second instrument is the first one, transposing by so much more. -/
structure Instrument.Shifted (shift : String → Int) (i i' : Instrument) : Prop where
  /-- The name on staff lines. -/
  id : i'.id = i.id
  /-- The name that is shown. -/
  displayName : i'.displayName = i.displayName
  /-- The transposition. -/
  transpose : i'.transpose = i.transpose + shift i.id

/-! ## One staff

The staff takes the written pitch, and transposes it only when it emits the note.  So the staves of
both runs stay equal, and the notes differ by the shift. -/

/-- Where a staff stands in both runs. -/
structure Playing.Shifted (shift : String → Int) (p p' : Playing) : Prop where
  /-- The staff remembers the same. -/
  staff : p'.staff = p.staff
  /-- It stands at the same place. -/
  position : p'.position = p.position
  /-- The notes are shifted. -/
  events : ShiftedNotes shift p.events p'.events

namespace Playing

variable {shift : String → Int} {m : Meter} {i i' : Instrument} {p p' q : Playing}

/-- Notes are only added. -/
theorem play_subset {ts : List Token} (h : play m i p ts = .ok q) :
    ∀ n ∈ p.events, n ∈ q.events := by
  obtain ⟨r, -, rfl, -⟩ := play_new h
  exact fun n hn ↦ Array.mem_append_left _ hn

theorem emit_subset {duration : Float} {text : String}
    (h : (emit i duration p text).value = .ok q) : ∀ n ∈ p.events, n ∈ q.events := by
  rw [emit_value] at h
  obtain ⟨⟨st, pitch⟩, -, h⟩ := bind_eq_ok h
  obtain ⟨name, -, h⟩ := bind_eq_ok h
  cases h
  exact fun n hn ↦ Array.mem_push_of_mem _ hn

theorem keepsPace_emit (hi : i.Shifted shift i') (duration : Float) (h : p.Shifted shift p')
    (text : String) :
    KeepsPace (AllShiftable shift ·.events) (Playing.Shifted shift) (emit i duration p text).value
      (emit i' duration p' text).value := by
  rw [emit_value, emit_value, h.staff, h.position]
  refine .bind_same ?_
  rintro ⟨st, pitch⟩
  -- transposing in two steps is transposing once
  have htranspose : (pitch.transpose i.transpose).transpose (shift i.id) =
      pitch.transpose i'.transpose := by rw [Pitch.transpose_transpose, hi.transpose]
  refine ⟨?_, ?_⟩
  · intro q hq hgood
    obtain ⟨name, hname, hq⟩ := bind_eq_ok hq
    cases hq
    obtain ⟨r, hr, hwritable⟩ := hgood _ (Array.mem_push_self)
    obtain rfl := Pitch.name_inj hr hname
    dsimp only at hwritable
    rw [htranspose] at hwritable
    dsimp only
    rw [Pitch.name_of_isWritable hwritable]
    exact ⟨_, rfl⟩
  · intro q q' hq hq'
    obtain ⟨name, hname, hq⟩ := bind_eq_ok hq
    obtain ⟨name', hname', hq'⟩ := bind_eq_ok hq'
    cases hq
    cases hq'
    refine ⟨rfl, rfl, ?_⟩
    rw [ShiftedNotes, Array.toList_push, Array.toList_push]
    refine List.rel_append h.events (.cons ⟨rfl, rfl, hi.id, hi.displayName, ?_⟩ .nil)
    exact ⟨_, hname, by rw [htranspose, hname']⟩

theorem keepsPace_emitAll (hi : i.Shifted shift i') (duration : Float) (h : p.Shifted shift p')
    (texts : List String) :
    KeepsPace (AllShiftable shift ·.events) (Playing.Shifted shift) (emitAll i duration p texts)
      (emitAll i' duration p' texts) :=
  .foldlM (fun _ _ _ hq hgood n hn ↦ hgood n (emit_subset hq n hn))
    (fun _ _ text h ↦ keepsPace_emit hi duration h text) texts h

theorem keepsPace_step (hi : i.Shifted shift i') (h : p.Shifted shift p') (t : Token) :
    KeepsPace (AllShiftable shift ·.events) (Playing.Shifted shift) (step m i p t).value
      (step m i' p' t).value := by
  cases hs : t.sound? with
  | some s =>
    have hseconds : p'.secondsOf m s.code? = p.secondsOf m s.code? := by
      rw [secondsOf, secondsOf, h.staff]
    have hremember : (p.remember s.code?).Shifted shift (p'.remember s.code?) :=
      ⟨congrArg (·.rememberDuration s.code?) h.staff, h.position, h.events⟩
    rw [step_value_of_sound hs, step_value_of_sound hs, hseconds]
    refine .bind (keepsPace_emitAll hi _ hremember s.pitches) ?_ ?_
    · rintro r _ ⟨⟩ hgood
      exact hgood
    · intro r r' hr
      refine .pure ⟨hr.staff, ?_, hr.events⟩
      simp only [advance, hr.position]
  | none =>
    rw [step_value_of_silent hs, step_value_of_silent hs]
    refine .pure ?_
    cases t with
    | barline => exact ⟨h.staff, by rw [pass, pass, h.position], h.events⟩
    | grid code => exact ⟨congrArg (·.setGrid code) h.staff, h.position, h.events⟩
    | _ => exact h

theorem keepsPace_play (hi : i.Shifted shift i') (h : p.Shifted shift p') (ts : List Token) :
    KeepsPace (AllShiftable shift ·.events) (Playing.Shifted shift) (play m i p ts)
      (play m i' p' ts) := by
  refine .foldlM ?_ (fun _ _ t h ↦ keepsPace_step hi h t) ts h
  intro p t q hq hgood n hn
  have hplay : play m i p [t] = .ok q := by
    rw [play, List.foldlM_cons, hq]
    rfl
  exact hgood n (play_subset hplay n hn)

end Playing

/-! ## All staves -/

/-- The instruments of the second ensemble are those of the first one, shifted, and their staves
remember the same. -/
structure Ensemble.Shifted (shift : String → Int) (e e' : Ensemble) : Prop where
  /-- The instruments are shifted. -/
  player : ∀ k, (e.player k).Shifted shift (e'.player k)
  /-- Their staves remember the same. -/
  memory : ∀ k, e'.memory k = e.memory k

theorem Ensemble.Shifted.afterTurn {shift : String → Int} {e e' : Ensemble}
    (h : e.Shifted shift e') (id : String) (st : Staff) :
    (e.afterTurn id st).Shifted shift (e'.afterTurn id st) where
  player := by
    intro k
    rw [player_afterTurn, player_afterTurn]
    exact h.player k
  memory := by
    intro k
    by_cases hk : k = id
    · rw [hk, memory_afterTurn_self, memory_afterTurn_self]
    · rw [memory_afterTurn_of_ne _ hk, memory_afterTurn_of_ne _ hk, h.memory]

/-- The state of the assembly in both runs. -/
structure Assembly.Shifted (shift : String → Int) (a a' : Assembly) : Prop where
  /-- The instruments are shifted. -/
  ensemble : a.ensemble.Shifted shift a'.ensemble
  /-- The staves stand at the same places. -/
  positions : a'.positions = a.positions
  /-- The notes are shifted. -/
  events : ShiftedNotes shift a.events a'.events

namespace Assembly

variable {shift : String → Int} {macros : Macro.Table} {b : Block} {start : Float}
  {a a' a₁ : Assembly}

theorem playLine_value (macros : Macro.Table) (b : Block) (start : Float) (a : Assembly)
    (l : Nat × List Char) :
    (playLine macros b start a l).value =
      match Assignment.read? l.2 with
      | none => .ok a
      | some s => contentTokens macros s.content >>= fun ts ↦
        (s.ids.map String.ofList).foldlM (fun a k ↦ (playStaff l.1 b start ts a k).value) a := by
  rw [playLine]
  cases Assignment.read? l.2 with
  | none => rfl
  | some s =>
    dsimp only
    rw [Noted.value_bind fun ts ↦ .foldlM (appends_playStaff l.1 b start ts) _ _, tokens_value]
    refine congrArg _ (funext ?_)
    intro ts
    rw [Noted.value_foldlM (appends_playStaff l.1 b start ts)]

theorem playBlock_value (macros : Macro.Table) (a : Assembly) (b : Block) (start : Float) :
    (playBlock macros a b start).value =
      b.lines.foldlM (fun a l ↦ (playLine macros b start a l).value) { a with positions := ∅ } :=
  Noted.value_foldlM (appends_playLine macros b start) _ _

/-! ### Notes are only added -/

theorem playStaff_subset {line : Nat} {ts : List Token} {id : String}
    (h : (playStaff line b start ts a id).value = .ok a₁) : ∀ n ∈ a.events, n ∈ a₁.events := by
  rw [playStaff_value] at h
  obtain ⟨m, -, h⟩ := bind_eq_ok h
  obtain ⟨p, hp, h⟩ := bind_eq_ok h
  cases h
  exact Playing.play_subset hp

theorem playLine_subset {l : Nat × List Char} (h : (playLine macros b start a l).value = .ok a₁) :
    ∀ n ∈ a.events, n ∈ a₁.events := by
  rw [playLine_value] at h
  cases hl : Assignment.read? l.2 with
  | none =>
    rw [hl] at h
    cases h
    exact fun _ hn ↦ hn
  | some s =>
    rw [hl] at h
    obtain ⟨ts, -, h⟩ := bind_eq_ok h
    exact foldlM_invariant (P := fun _ a₁ ↦ ∀ n ∈ a.events, n ∈ a₁.events)
      (fun _ _ _ _ hs hk n hn ↦ playStaff_subset hk n (hs n hn)) (fun _ hn ↦ hn) h

theorem playBlock_subset (h : (playBlock macros a b start).value = .ok a₁) :
    ∀ n ∈ a.events, n ∈ a₁.events := by
  rw [playBlock_value] at h
  exact foldlM_invariant (P := fun _ a₁ ↦ ∀ n ∈ a.events, n ∈ a₁.events)
    (fun _ _ _ _ hs hl n hn ↦ playLine_subset hl n (hs n hn)) (fun _ hn ↦ hn) h

/-! ### Both runs -/

theorem keepsPace_playStaff (h : a.Shifted shift a') (line : Nat) (b : Block) (start : Float)
    (ts : List Token) (id : String) :
    KeepsPace (AllShiftable shift ·.events) (Assembly.Shifted shift)
      (playStaff line b start ts a id).value (playStaff line b start ts a' id).value := by
  rw [playStaff_value, playStaff_value]
  refine .bind_same ?_
  intro m
  have hstaff : Playing.Shifted shift ⟨a.ensemble.memory id, a.position start id, a.events⟩
      ⟨a'.ensemble.memory id, a'.position start id, a'.events⟩ :=
    ⟨h.ensemble.memory id, by rw [position, position, h.positions], h.events⟩
  refine .bind (Playing.keepsPace_play (h.ensemble.player id) hstaff ts) ?_ ?_
  · rintro p _ ⟨⟩ hgood
    exact hgood
  · intro p p' hp
    refine .pure ⟨?_, ?_, hp.events⟩
    · rw [afterTurn, afterTurn, hp.staff]
      exact h.ensemble.afterTurn id p.staff
    · rw [afterTurn, afterTurn, h.positions, hp.position]

theorem keepsPace_playLine (h : a.Shifted shift a') (macros : Macro.Table) (b : Block)
    (start : Float) (l : Nat × List Char) :
    KeepsPace (AllShiftable shift ·.events) (Assembly.Shifted shift)
      (playLine macros b start a l).value (playLine macros b start a' l).value := by
  rw [playLine_value, playLine_value]
  cases Assignment.read? l.2 with
  | none => exact .pure h
  | some s =>
    refine .bind_same ?_
    intro ts
    refine .foldlM ?_ (fun _ _ k h ↦ keepsPace_playStaff h l.1 b start ts k) _ h
    exact fun _ _ _ hk hgood n hn ↦ hgood n (playStaff_subset hk n hn)

theorem keepsPace_playBlock (h : a.Shifted shift a') (macros : Macro.Table) (b : Block)
    (start : Float) :
    KeepsPace (AllShiftable shift ·.events) (Assembly.Shifted shift)
      (playBlock macros a b start).value (playBlock macros a' b start).value := by
  rw [playBlock_value, playBlock_value]
  refine .foldlM ?_ (fun _ _ l h ↦ keepsPace_playLine h macros b start l) _
    ⟨h.ensemble, rfl, h.events⟩
  exact fun _ _ _ hl hgood n hn ↦ hgood n (playLine_subset hl n hn)

end Assembly

namespace Timeline

variable {shift : String → Int} {macros : Macro.Table} {e e' : Ensemble} {bs : List Block}
  {t t' t₁ : Timeline}

/-- The state of the timeline in both runs. -/
structure Shifted (shift : String → Int) (t t' : Timeline) : Prop where
  /-- The next block starts at the same time. -/
  seconds : t'.secondsOffset = t.secondsOffset
  /-- It starts at the same beat. -/
  beats : t'.beatOffset = t.beatOffset
  /-- The instruments and the notes are shifted. -/
  assembly : Assembly.Shifted shift { t.assembly with positions := ∅ }
    { t'.assembly with positions := ∅ }

theorem addBlock_subset {b : Block} (h : (addBlock macros t b).value = .ok t₁) :
    ∀ n ∈ t.assembly.events, n ∈ t₁.assembly.events := by
  rw [addBlock_value] at h
  obtain ⟨a, ha, h⟩ := bind_eq_ok h
  obtain ⟨beats, -, h⟩ := bind_eq_ok h
  obtain ⟨beat, -, h⟩ := bind_eq_ok h
  cases h
  exact Assembly.playBlock_subset ha

theorem keepsPace_addBlock (h : t.Shifted shift t') (macros : Macro.Table) (b : Block) :
    KeepsPace (AllShiftable shift ·.assembly.events) (Shifted shift) (addBlock macros t b).value
      (addBlock macros t' b).value := by
  rw [addBlock_value, addBlock_value, h.seconds, h.beats]
  refine .bind (Assembly.keepsPace_playBlock h.assembly macros b t.secondsOffset) ?_ ?_
  · intro a t₁ h hgood
    obtain ⟨beats, -, h⟩ := bind_eq_ok h
    obtain ⟨beat, -, h⟩ := bind_eq_ok h
    cases h
    exact hgood
  · intro a a' ha
    refine .bind_same fun beats ↦ .bind_same fun beat ↦ .pure ⟨rfl, rfl, ?_⟩
    exact ⟨ha.ensemble, rfl, ha.events⟩

/-- Two ensembles with shifted instruments play the same blocks. -/
theorem keepsPace_ofBlocks (h : e.Shifted shift e') (macros : Macro.Table) (bs : List Block) :
    KeepsPace (AllShiftable shift ·.assembly.events) (Shifted shift) (ofBlocks macros e bs).value
      (ofBlocks macros e' bs).value := by
  rw [ofBlocks_value, ofBlocks_value]
  refine .foldlM ?_ (fun _ _ b h ↦ keepsPace_addBlock h macros b) bs ⟨rfl, rfl, h, rfl, .nil⟩
  exact fun _ _ _ hb hgood n hn ↦ hgood n (addBlock_subset hb n hn)

/-- Every note bears the name of a pitch. -/
theorem named_ofBlocks (h : (ofBlocks macros e bs).value = .ok t) :
    ∀ n ∈ t.assembly.events, ∃ p : Pitch, p.name = .ok n.pitch := by
  have hsame : e.Shifted (fun _ ↦ 0) e := ⟨fun k ↦ ⟨rfl, rfl, (Int.add_zero _).symm⟩, fun _ ↦ rfl⟩
  have hshifted := (keepsPace_ofBlocks hsame macros bs).meets t t h h
  intro n hn
  obtain ⟨p, hp, -⟩ := hshifted.assembly.events.allShiftable n hn
  exact ⟨p, hp⟩

end Timeline

/-! ## One instrument transposed

Here the shifts are specialised: one instrument has the difference of the two transpositions, all
others have zero, and a shift by zero is no shift.  In terms of MIDI numbers the law is an
addition. -/

/-- Two ensembles that differ in nothing but the transposition of one instrument, `T` semitones in
the first and `T'` in the second. -/
structure Ensemble.Retuned (id : String) (T T' : Int) (e e' : Ensemble) : Prop where
  /-- New staves are the same. -/
  defaults : e'.defaults = e.defaults
  /-- So are the staves. -/
  staves : e'.staves = e.staves
  /-- So are the groups. -/
  groups : e'.groups = e.groups
  /-- So are the ids of the instruments, in order. -/
  keys : e'.instruments.keys = e.instruments.keys
  /-- One instrument differs in its transposition. -/
  own : ∃ i, i.transpose = T ∧ e.instruments.get? id = some i ∧
    e'.instruments.get? id = some { i with transpose := T' }
  /-- The others are the same. -/
  others : ∀ k, k ≠ id → e'.instruments.get? k = e.instruments.get? k

namespace Ensemble

/-- The instrument of an id is shifted, the others are not. -/
def shiftOf (id : String) (semitones : Int) (k : String) : Int := if k = id then semitones else 0

theorem Retuned.shifted {id : String} {T T' : Int} {e e' : Ensemble} (h : Retuned id T T' e e') :
    e.Shifted (shiftOf id (T' - T)) e' where
  player := by
    intro k
    by_cases hk : k = id
    · obtain ⟨i, htranspose, hget, hget'⟩ := h.own
      have hid : i.id = id := e.keyed id i hget
      rw [hk, player, player, hget, hget', Option.getD_some, Option.getD_some]
      refine ⟨rfl, rfl, ?_⟩
      rw [shiftOf, if_pos hid, htranspose]
      show T' = T + (T' - T)
      omega
    · have hsame : e'.player k = e.player k := by rw [player, player, h.others k hk]
      rw [hsame]
      refine ⟨rfl, rfl, ?_⟩
      rw [e.id_player, shiftOf, if_neg hk, Int.add_zero]
  memory := by
    intro k
    rw [memory, memory, h.staves, h.defaults]
    by_cases hk : k = id
    · obtain ⟨i, -, hget, hget'⟩ := h.own
      rw [hk, hget, hget']
    · rw [h.others k hk]

/-- The last declaration of an instrument with another transposition. -/
theorem retuned_register (e : Ensemble) (i : Instrument) (T' : Int) :
    Retuned i.id i.transpose T' (e.register i) (e.register { i with transpose := T' }) where
  defaults := rfl
  staves := rfl
  groups := rfl
  keys := by
    show (e.instruments.put _ _).keys = (e.instruments.put _ _).keys
    rw [OrderedMap.keys_put, OrderedMap.keys_put]
  own := ⟨i, rfl, OrderedMap.get?_put_self _ _ _, OrderedMap.get?_put_self _ _ _⟩
  others := fun _ hk ↦
    (OrderedMap.get?_put_of_ne hk _ _).trans (OrderedMap.get?_put_of_ne hk _ _).symm

end Ensemble

/-- The second note is the first one, some semitones higher if one instrument plays it, and with the
same pitch if another one does. -/
structure NoteEvent.Transposed (id : String) (semitones : Int) (n n' : NoteEvent) : Prop where
  /-- They start together. -/
  start : n'.start = n.start
  /-- They last as long. -/
  duration : n'.duration = n.duration
  /-- The same instrument plays them. -/
  instrumentId : n'.instrumentId = n.instrumentId
  /-- It has the same name. -/
  instrumentName : n'.instrumentName = n.instrumentName
  /-- The notes of the instrument are as many semitones apart. -/
  own : n.instrumentId = id → ∃ k, n.midiNote = .ok k ∧ n'.midiNote = .ok (k + semitones)
  /-- The notes of the others have the same pitch. -/
  others : n.instrumentId ≠ id → n'.pitch = n.pitch

theorem NoteEvent.Shifted.transposed {id : String} {semitones : Int} {n n' : NoteEvent}
    (h : n.Shifted (Ensemble.shiftOf id semitones) n') : n.Transposed id semitones n' where
  start := h.start
  duration := h.duration
  instrumentId := h.instrumentId
  instrumentName := h.instrumentName
  own := by
    intro hid
    obtain ⟨p, hp, hp'⟩ := h.pitch
    rw [Ensemble.shiftOf, if_pos hid] at hp'
    refine ⟨p.semitone + 12, Pitch.midiNumber_of_name hp, ?_⟩
    rw [midiNote, Pitch.midiNumber_of_name hp', Pitch.semitone_transpose]
    exact congrArg Except.ok (by omega)
  others := by
    intro hid
    obtain ⟨p, hp, hp'⟩ := h.pitch
    rw [Ensemble.shiftOf, if_neg hid, Pitch.transpose_zero, hp] at hp'
    exact (Except.ok.inj hp').symm

/-- The note, some semitones higher, lies in an octave that is short enough to be written. -/
def NoteEvent.CanRise (semitones : Int) (n : NoteEvent) : Prop :=
  ∀ k, n.midiNote = .ok k → isWritable ((k + semitones) / 12 - 1) = true

theorem NoteEvent.shiftable_iff {id : String} {semitones : Int} {n : NoteEvent} {p : Pitch}
    (hp : p.name = .ok n.pitch) :
    n.Shiftable (Ensemble.shiftOf id semitones) ↔
      (n.instrumentId = id → n.CanRise semitones) := by
  have hmidi : n.midiNote = .ok (p.semitone + 12) := Pitch.midiNumber_of_name hp
  have hoctave : (p.semitone + 12 + semitones) / 12 - 1 = (p.transpose semitones).octave := by
    show _ = (p.semitone + semitones) / 12
    omega
  have hshift : n.Shiftable (Ensemble.shiftOf id semitones) ↔
      isWritable (p.transpose (Ensemble.shiftOf id semitones n.instrumentId)).octave = true := by
    refine ⟨?_, fun h ↦ ⟨p, hp, h⟩⟩
    rintro ⟨q, hq, h⟩
    rwa [Pitch.name_inj hq hp] at h
  rw [hshift, Ensemble.shiftOf]
  by_cases hid : n.instrumentId = id
  · rw [if_pos hid, ← hoctave]
    constructor
    · intro h _ k hk
      obtain rfl := Except.ok.inj (hmidi.symm.trans hk)
      exact h
    · exact fun h ↦ h hid _ hmidi
  · rw [if_neg hid, Pitch.transpose_zero]
    exact iff_of_true (Pitch.name_ok hp).1 fun h ↦ absurd h hid

namespace Timeline

/-- What a transposition of one instrument does to a timeline: every note has its counterpart at the
same place, when they are played and in the order of time, and every staff remembers the same at
each of its tokens and in the end. -/
structure Transposed (macros : Macro.Table) (bs : List Block) (id : String) (semitones : Int)
    (e e' : Ensemble) (t t' : Timeline) : Prop where
  /-- The notes as they are played. -/
  events : List.Forall₂ (NoteEvent.Transposed id semitones) t.assembly.events.toList
    t'.assembly.events.toList
  /-- The notes in the order of time. -/
  sorted : List.Forall₂ (NoteEvent.Transposed id semitones)
    (t.assembly.events.toList.mergeSort NoteEvent.notAfter)
    (t'.assembly.events.toList.mergeSort NoteEvent.notAfter)
  /-- What a staff remembers at each of its tokens. -/
  moments : ∀ k, (Timeline.moments macros e' bs).filter (·.id = k) =
    (Timeline.moments macros e bs).filter (·.id = k)
  /-- What a staff remembers in the end. -/
  memory : ∀ k, t'.assembly.ensemble.memory k = t.assembly.ensemble.memory k

/-- **The law of transposition.**  Of two ensembles that differ in the transposition of one
instrument, let the first one come to the end of a score.  Then the second one does if and only if
the octaves of the instrument's notes, so many semitones higher, are short enough to be written, and
its notes are those of the first one, transposed: place by place, in the order in which they are
played and in the order of time. -/
theorem transposed_ofBlocks {macros : Macro.Table} {bs : List Block} {id : String} {T T' : Int}
    {e e' : Ensemble} {t : Timeline} (he : e.Retuned id T T' e')
    (h : (ofBlocks macros e bs).value = .ok t) :
    ((∃ t', (ofBlocks macros e' bs).value = .ok t') ↔
      ∀ n ∈ t.assembly.events, n.instrumentId = id → n.CanRise (T' - T)) ∧
    ∀ t', (ofBlocks macros e' bs).value = .ok t' →
      Transposed macros bs id (T' - T) e e' t t' := by
  have hpace := keepsPace_ofBlocks he.shifted macros bs
  -- the two runs keep pace, so one goes through if the shifted names of the other can be written
  refine ⟨⟨?_, ?_⟩, ?_⟩
  · rintro ⟨t', h'⟩ n hn
    obtain ⟨p, hp⟩ := named_ofBlocks h n hn
    exact (NoteEvent.shiftable_iff hp).mp
      ((hpace.meets t t' h h').assembly.events.allShiftable n hn)
  · intro hrise
    refine hpace.goes t h ?_
    intro n hn
    obtain ⟨p, hp⟩ := named_ofBlocks h n hn
    exact (NoteEvent.shiftable_iff hp).mpr (hrise n hn)
  · intro t' h'
    have hshifted := hpace.meets t t' h h'
    have hevents : List.Forall₂ (NoteEvent.Transposed id (T' - T)) t.assembly.events.toList
        t'.assembly.events.toList := hshifted.assembly.events.imp fun _ _ hn ↦ hn.transposed
    refine ⟨hevents, ?_, ?_, hshifted.assembly.ensemble.memory⟩
    · exact NoteEvent.forall₂_mergeSort_notAfter (fun _ _ hn ↦ hn.start) hevents
    · intro k
      rw [own_moments h k, own_moments h' k, he.shifted.memory]

/-- A note that rises over the end of its octave, a note that falls below octave zero, a text that
is no pitch, and another instrument on the same line. -/
theorem transposed_ofBlocks_shared_line :
    ∃ t t', (ofBlocks ∅ (({ defaults := {} } : Ensemble).register ⟨"p", "P", 3, none, none, none⟩)
        [⟨1, 1, 120, ⟨4, 4⟩, [(2, "p, q: b c0 h".toList)]⟩]).value = .ok t ∧
      (ofBlocks ∅ (({ defaults := {} } : Ensemble).register ⟨"p", "P", -2, none, none, none⟩)
        [⟨1, 1, 120, ⟨4, 4⟩, [(2, "p, q: b c0 h".toList)]⟩]).value = .ok t' ∧
      Transposed ∅ [⟨1, 1, 120, ⟨4, 4⟩, [(2, "p, q: b c0 h".toList)]⟩] "p" (-2 - 3)
        (({ defaults := {} } : Ensemble).register ⟨"p", "P", 3, none, none, none⟩)
        (({ defaults := {} } : Ensemble).register ⟨"p", "P", -2, none, none, none⟩) t t' := by
  obtain ⟨t, ht⟩ := exists_ok (x := (ofBlocks ∅
    (({ defaults := {} } : Ensemble).register ⟨"p", "P", 3, none, none, none⟩)
    [⟨1, 1, 120, ⟨4, 4⟩, [(2, "p, q: b c0 h".toList)]⟩]).value) (by decide +kernel)
  obtain ⟨t', ht'⟩ := exists_ok (x := (ofBlocks ∅
    (({ defaults := {} } : Ensemble).register ⟨"p", "P", -2, none, none, none⟩)
    [⟨1, 1, 120, ⟨4, 4⟩, [(2, "p, q: b c0 h".toList)]⟩]).value) (by decide +kernel)
  exact ⟨t, t', ht, ht', (transposed_ofBlocks (Ensemble.retuned_register { defaults := {} }
    ⟨"p", "P", 3, none, none, none⟩ (-2)) ht).2 t' ht'⟩

end Timeline

end TextScore
