import TextScore.Proofs.Measure.Assignment
import TextScore.Proofs.Timeline.Play
import TextScore.Timeline

/-!
# One voice of the timeline

Blocks, lines and instruments are played in one long loop that interleaves all staves.  Looked at
through one instrument, its *voice*, the loop is nothing but that instrument playing its own tokens:
another instrument's turn leaves the voice as it is.

This is the separation that the laws about single instruments rest on.  What can be said of one
instrument alone is said of its voice by the lemmas of `TextScore.Proofs.Timeline.Play`, and carried
to the timeline by the ones below.

## What is here

* `Block.part` — the tokens of an instrument in a block, in order.
* `Ensemble.player`, `Ensemble.memory` — the instrument and the staff of an id, known or not.
* `Assembly.voice` — what the loop knows of one instrument.
* `Assembly.Plays` — between two states, a voice has played some tokens.
* `Assembly.plays_playBlock` — behind a block, every voice has played its part of it.
* `Timeline.addBlock_ok` — the same with the offsets, for a block on the timeline.

A voice holds the notes of its instrument only, while the loop has one array for all.  That its own
notes are new ones behind the array, and all of them signed with its id, is what makes filtering for
the id the same as playing alone.
-/

set_option autoImplicit false

namespace TextScore

open Text Number

/-! ## Parts

A line that names an instrument twice is played twice by it, so the part of a line is the tokens as
often as the id is named. -/

/-- The tokens of the content of a staff line: fragments put in, repeats written out. -/
def contentTokens (macros : Macro.Table) (content : List Char) : Except Fault (List Token) :=
  (Repeat.expand (macros.expand content).1).value.map tokenize

/-- The tokens that an instrument plays on a line: those of the line, once for each time the line
names the instrument. -/
def linePart (macros : Macro.Table) (id : String) (l : Nat × List Char) : List Token :=
  match Assignment.read? l.2 with
  | none => []
  | some s => (s.ids.map String.ofList).flatMap fun k ↦
      if k = id then (contentTokens macros s.content).toOption.getD [] else []

/-- The tokens that an instrument plays in a block, in order. -/
def Block.part (macros : Macro.Table) (id : String) (b : Block) : List Token :=
  b.lines.flatMap (linePart macros id)

/-! ## Instruments and their staves

An id without declaration stands for an instrument before anybody has met it: the one that will be
made up, with a new staff.  With `player` and `memory` defined for all ids there is no difference
between the first turn of an instrument and the later ones. -/

namespace Ensemble

/-- The instrument that plays under an id, declared or made up. -/
def player (e : Ensemble) (id : String) : Instrument :=
  (e.instruments.get? id).getD (.undeclared id)

/-- What the staff of an id remembers; it is a new staff as long as nobody has declared the id or
played under it. -/
def memory (e : Ensemble) (id : String) : Staff :=
  match e.instruments.get? id with
  | some _ => (e.staves.get? id).getD e.defaults.newStaff
  | none => e.defaults.newStaff

/-- The ensemble once somebody has played under an id. -/
def enrol (e : Ensemble) (id : String) : Ensemble := (e.resolve id).2.1

theorem id_player (e : Ensemble) (id : String) : (e.player id).id = id := by
  rw [player]
  cases h : e.instruments.get? id with
  | some i => exact e.keyed id i h
  | none => rfl

theorem resolve_fst (e : Ensemble) (id : String) : (e.resolve id).1 = e.player id := by
  rw [resolve, player]
  cases e.instruments.get? id <;> rfl

theorem get?_enrol_self (e : Ensemble) (id : String) :
    (e.enrol id).instruments.get? id = some (e.player id) := by
  rw [enrol, resolve, player]
  cases h : e.instruments.get? id with
  | some i => exact h
  | none => exact OrderedMap.get?_put_self _ _ _

theorem get?_enrol_of_ne (e : Ensemble) {id k : String} (h : k ≠ id) :
    (e.enrol id).instruments.get? k = e.instruments.get? k ∧
      (e.enrol id).staves.get? k = e.staves.get? k := by
  rw [enrol, resolve]
  cases e.instruments.get? id with
  | some i => exact ⟨rfl, rfl⟩
  | none => exact ⟨OrderedMap.get?_put_of_ne h _ _, OrderedMap.get?_put_of_ne h _ _⟩

/-- Whoever plays has a staff. -/
theorem staff_enrol (e : Ensemble) (id : String) : (e.enrol id).staff id = .ok (e.memory id) := by
  rw [enrol, resolve, memory, staff]
  cases h : e.instruments.get? id with
  | some i =>
    obtain ⟨st, hst⟩ := Option.isSome_iff_exists.mp (e.staffed id i h)
    rw [hst]
    rfl
  | none =>
    have hput := OrderedMap.get?_put_self e.staves id e.defaults.newStaff
    rw [show (e.register (.undeclared id)).staves.get? id = _ from hput]

/-- The ensemble behind the turn of an instrument. -/
def afterTurn (e : Ensemble) (id : String) (st : Staff) : Ensemble := (e.enrol id).setStaff id st

theorem player_afterTurn (e : Ensemble) (id : String) (st : Staff) (k : String) :
    (e.afterTurn id st).player k = e.player k := by
  show ((e.enrol id).instruments.get? k).getD _ = _
  by_cases h : k = id
  · rw [h, get?_enrol_self, Option.getD_some]
  · rw [(e.get?_enrol_of_ne h).1, player]

theorem memory_afterTurn_self (e : Ensemble) (id : String) (st : Staff) :
    (e.afterTurn id st).memory id = st := by
  have hst : (e.afterTurn id st).staves.get? id = some st := OrderedMap.get?_put_self _ _ _
  have hi : (e.afterTurn id st).instruments.get? id = some (e.player id) := e.get?_enrol_self id
  rw [memory, hi, hst]
  rfl

theorem memory_afterTurn_of_ne (e : Ensemble) {id k : String} (h : k ≠ id) (st : Staff) :
    (e.afterTurn id st).memory k = e.memory k := by
  have hst : (e.afterTurn id st).staves.get? k = e.staves.get? k :=
    (OrderedMap.get?_put_of_ne h _ _).trans (e.get?_enrol_of_ne h).2
  have hi : (e.afterTurn id st).instruments.get? k = e.instruments.get? k :=
    (e.get?_enrol_of_ne h).1
  have hd : (e.afterTurn id st).defaults = e.defaults := by
    show (e.enrol id).defaults = _
    rw [enrol, resolve]
    cases e.instruments.get? id <;> rfl
  rw [memory, memory, hi, hst, hd]

end Ensemble

/-! ## Voices

`voice_afterTurn_self` and `voice_afterTurn_of_ne` are the separation; all else is that it holds for
loops if it holds for their steps. -/

/-- The notes of one instrument. -/
def notesOf (id : String) (es : Array NoteEvent) : Array NoteEvent :=
  es.filter (·.instrumentId = id)

theorem notesOf_append (id : String) (es fs : Array NoteEvent) :
    notesOf id (es ++ fs) = notesOf id es ++ notesOf id fs :=
  Array.filter_append Array.size_append

theorem notesOf_own {i : Instrument} {es : Array NoteEvent}
    (h : ∀ n ∈ es, Playing.Signed i n) : notesOf i.id es = es :=
  Array.filter_eq_self.mpr fun n hn ↦ decide_eq_true (h n hn).1

theorem notesOf_other {i : Instrument} {id : String} (hid : id ≠ i.id) {es : Array NoteEvent}
    (h : ∀ n ∈ es, Playing.Signed i n) : notesOf id es = #[] :=
  Array.filter_eq_empty_iff.mpr fun n hn hn' ↦
    hid ((of_decide_eq_true hn').symm.trans (h n hn).1)

namespace Assembly

/-- Where a staff stands in a block. -/
def position (start : Float) (a : Assembly) (id : String) : Position :=
  (a.positions.get? id).getD ⟨start, 0⟩

/-- What is known of one instrument: its staff, and its own notes. -/
def voice (start : Float) (a : Assembly) (id : String) : Playing :=
  ⟨a.ensemble.memory id, a.position start id, notesOf id a.events⟩

/-- The assembly behind the turn of an instrument. -/
def afterTurn (a : Assembly) (id : String) (p : Playing) : Assembly where
  ensemble := a.ensemble.afterTurn id p.staff
  events := p.events
  positions := a.positions.put id p.position

/-- An instrument's turn, once the ensemble knows it. -/
def turn (line : Nat) (b : Block) (start : Float) (ts : List Token) (a : Assembly) (id : String) :
    Pass Assembly := do
  let m ← Noted.ofExcept (b.meter start)
  let p ← atLine line (ts.foldlM (Playing.step m (a.ensemble.player id))
    ⟨a.ensemble.memory id, a.position start id, a.events⟩)
  return a.afterTurn id p

theorem appends_turn (line : Nat) (b : Block) (start : Float) (ts : List Token) (a : Assembly)
    (id : String) : (turn line b start ts a id).Appends :=
  .bind (.ofExcept _) fun _ ↦ .bind (.atLine _ _) fun _ ↦ .pure _

/-- Whoever it is, the ensemble knows the instrument when the tokens are played. -/
theorem playStaff_eq (line : Nat) (b : Block) (start : Float) (ts : List Token) (a : Assembly)
    (id : String) :
    playStaff line b start ts a id =
      if (a.ensemble.resolve id).2.2 then do
        report line (.undeclaredInstrument id)
        turn line b start ts a id
      else turn line b start ts a id := by
  have hstaff := a.ensemble.staff_enrol id
  rw [Ensemble.enrol] at hstaff
  rw [playStaff, turn, ← a.ensemble.resolve_fst id]
  dsimp only
  rw [hstaff]
  rfl

theorem appends_playStaff (line : Nat) (b : Block) (start : Float) (ts : List Token)
    (a : Assembly) (id : String) : (playStaff line b start ts a id).Appends := by
  rw [playStaff_eq]
  split
  · exact .bind (.note _) fun _ ↦ appends_turn line b start ts a id
  · exact appends_turn line b start ts a id

/-- In its turn an instrument plays the tokens, from where its staff stands. -/
theorem playStaff_value (line : Nat) (b : Block) (start : Float) (ts : List Token) (a : Assembly)
    (id : String) :
    (playStaff line b start ts a id).value = do
      let m ← b.meter start
      let p ← Playing.play m (a.ensemble.player id)
        ⟨a.ensemble.memory id, a.position start id, a.events⟩ ts
      return a.afterTurn id p := by
  have hturn : (turn line b start ts a id).value = do
      let m ← b.meter start
      let p ← Playing.play m (a.ensemble.player id)
        ⟨a.ensemble.memory id, a.position start id, a.events⟩ ts
      return a.afterTurn id p := by
    rw [turn, Noted.value_bind fun _ ↦ .bind (.atLine _ _) fun _ ↦ .pure _,
      Noted.value_ofExcept]
    refine congrArg _ (funext ?_)
    intro m
    rw [Noted.value_bind fun _ ↦ .pure _, Noted.value_atLine, Playing.foldlM_step_value]
    rfl
  rw [playStaff_eq, ← hturn]
  split
  · rw [Noted.value_bind fun _ ↦ appends_turn line b start ts a id]
    rfl
  · rfl

/-- Between two states of the assembly the voice of `k` has played `ts`, and `k` still stands for
the same instrument. -/
structure Plays (m : Meter) (start : Float) (k : String) (ts : List Token) (a a' : Assembly) :
    Prop where
  /-- The instrument is the same. -/
  player : a'.ensemble.player k = a.ensemble.player k
  /-- Its voice has played. -/
  voice : Playing.play m (a.ensemble.player k) (a.voice start k) ts = .ok (a'.voice start k)

namespace Plays

variable {m : Meter} {start : Float} {k : String} {ts us : List Token} {a a' a'' : Assembly}

theorem refl : Plays m start k [] a a := ⟨rfl, rfl⟩

theorem trans (h : Plays m start k ts a a') (h' : Plays m start k us a' a'') :
    Plays m start k (ts ++ us) a a'' where
  player := h'.player.trans h.player
  voice := by rw [Playing.play_append, h.voice, ok_bind, ← h.player, h'.voice]

end Plays

/-- In the turn of an instrument its own voice plays. -/
theorem voice_afterTurn_self {m : Meter} {start : Float} {a : Assembly} {id : String}
    {p : Playing} {ts : List Token}
    (h : Playing.play m (a.ensemble.player id)
      ⟨a.ensemble.memory id, a.position start id, a.events⟩ ts = .ok p) :
    Playing.play m (a.ensemble.player id) (a.voice start id) ts =
      .ok ((a.afterTurn id p).voice start id) := by
  obtain ⟨r, hr, rfl, hsigned⟩ := Playing.play_new h
  have hvoice : a.voice start id = Playing.behind (notesOf id a.events)
      ⟨a.ensemble.memory id, a.position start id, #[]⟩ := by
    rw [Playing.behind, Array.append_empty]
    rfl
  have hown : notesOf id r.events = r.events := by
    have := notesOf_own hsigned
    rwa [a.ensemble.id_player] at this
  rw [hvoice, Playing.play_behind, hr]
  refine congrArg Except.ok ?_
  rw [voice, afterTurn, position, OrderedMap.get?_put_self, Ensemble.memory_afterTurn_self,
    Playing.behind, Playing.behind, notesOf_append, hown]
  rfl

/-- In the turn of another instrument a voice stays as it is. -/
theorem voice_afterTurn_of_ne {m : Meter} {start : Float} {a : Assembly} {id k : String}
    {p : Playing} {ts : List Token} (hk : k ≠ id)
    (h : Playing.play m (a.ensemble.player id)
      ⟨a.ensemble.memory id, a.position start id, a.events⟩ ts = .ok p) :
    (a.afterTurn id p).voice start k = a.voice start k := by
  obtain ⟨r, -, rfl, hsigned⟩ := Playing.play_new h
  have hother : notesOf k r.events = #[] :=
    notesOf_other (by rwa [a.ensemble.id_player]) hsigned
  rw [voice, voice, afterTurn, position, position, OrderedMap.get?_put_of_ne hk,
    Ensemble.memory_afterTurn_of_ne _ hk, Playing.behind, notesOf_append, hother,
    Array.append_empty]

/-- A turn, for every voice. -/
theorem plays_playStaff {line : Nat} {b : Block} {start : Float} {m : Meter}
    (hm : b.meter start = .ok m) {ts : List Token} {a a' : Assembly} {id : String}
    (h : (playStaff line b start ts a id).value = .ok a') (k : String) :
    Plays m start k (if id = k then ts else []) a a' := by
  rw [playStaff_value, hm, ok_bind] at h
  obtain ⟨p, hp, h⟩ := bind_eq_ok h
  cases h
  refine ⟨Ensemble.player_afterTurn _ _ _ k, ?_⟩
  by_cases hk : id = k
  · rw [if_pos hk, ← hk]
    exact voice_afterTurn_self hp
  · rw [if_neg hk, voice_afterTurn_of_ne (Ne.symm hk) hp, Playing.play_nil]

/-- What every item makes a voice play, one after the other. -/
theorem plays_foldlM {α : Type} {m : Meter} {start : Float} {k : String}
    {f : Assembly → α → Except Fault Assembly} {part : α → List Token}
    (hstep : ∀ a x a', f a x = .ok a' → Plays m start k (part x) a a') {xs : List α}
    {a a' : Assembly} (h : xs.foldlM f a = .ok a') : Plays m start k (xs.flatMap part) a a' := by
  refine foldlM_invariant (P := fun past s ↦ Plays m start k (past.flatMap part) a s)
    ?_ .refl h
  intro past s x s' hs hx
  rw [List.flatMap_append, List.flatMap_singleton]
  exact hs.trans (hstep s x s' hx)

/-! ## Lines and blocks -/

theorem appends_tokens (macros : Macro.Table) (line : Nat) (content : List Char) :
    (tokens macros line content).Appends := by
  rw [tokens_eq]
  rcases macros.expand content with ⟨text, problems⟩
  exact .bind (.forM_note _ _) fun _ ↦ .bind (.atLine _ _) fun _ ↦ .pure _

theorem tokens_value (macros : Macro.Table) (line : Nat) (content : List Char) :
    (tokens macros line content).value = contentTokens macros content := by
  rw [tokens_eq, contentTokens]
  rcases macros.expand content with ⟨text, problems⟩
  dsimp only
  rw [Noted.value_bind fun _ ↦ .bind (.atLine _ _) fun _ ↦ .pure _]
  show (problems.forM fun p ↦ note (.problem line p) : Pass Unit).value >>= _ = _
  rw [Noted.value_forM_note, ok_bind, Noted.value_bind fun _ ↦ .pure _, Noted.value_atLine]
  cases (Repeat.expand text).value <;> rfl

theorem plays_playLine {macros : Macro.Table} {b : Block} {start : Float} {m : Meter}
    (hm : b.meter start = .ok m) {a a' : Assembly} {l : Nat × List Char}
    (h : (playLine macros b start a l).value = .ok a') (k : String) :
    Plays m start k (linePart macros k l) a a' := by
  rw [playLine] at h
  rw [linePart]
  cases hl : Assignment.read? l.2 with
  | none =>
    rw [hl] at h
    cases h
    exact .refl
  | some s =>
    rw [hl] at h
    dsimp only at h ⊢
    rw [Noted.value_bind fun ts ↦ .foldlM (appends_playStaff l.1 b start ts) _ _, tokens_value] at h
    obtain ⟨ts, hts, h⟩ := bind_eq_ok h
    rw [Noted.value_foldlM (appends_playStaff l.1 b start ts)] at h
    rw [hts]
    exact plays_foldlM (f := fun a id ↦ (playStaff l.1 b start ts a id).value)
      (fun _ _ _ h ↦ plays_playStaff hm h k) h

theorem appends_playLine (macros : Macro.Table) (b : Block) (start : Float) (a : Assembly)
    (l : Nat × List Char) : (playLine macros b start a l).Appends := by
  rw [playLine]
  cases Assignment.read? l.2 with
  | none => exact .pure _
  | some s =>
    exact .bind (appends_tokens macros l.1 s.content) fun ts ↦
      .foldlM (appends_playStaff l.1 b start ts) _ _

/-- A line for one instrument: the tokens, then the turn of the instrument. -/
theorem playLine_lineFor {id content : List Char} (hne : id ≠ [])
    (hword : ∀ c ∈ id, isWord c = true)
    (hline : '\n' ∉ content) (macros : Macro.Table) (b : Block) (start : Float) (line : Nat)
    (a : Assembly) :
    playLine macros b start a (line, Assignment.lineFor id content) =
      tokens macros line (trim content) >>= fun ts ↦
        playStaff line b start ts a (String.ofList id) := by
  rw [playLine, Assignment.read?_lineFor hne hword hline]
  dsimp only
  refine congrArg _ (funext fun ts ↦ ?_)
  rw [List.map_singleton, List.foldlM_cons]
  exact bind_pure _

/-- Behind a block every voice has played its part of the block, from the start of the block. -/
theorem plays_playBlock {macros : Macro.Table} {b : Block} {start : Float} {m : Meter}
    (hm : b.meter start = .ok m) {a a' : Assembly}
    (h : (playBlock macros a b start).value = .ok a') (k : String) :
    Plays m start k (b.part macros k) { a with positions := ∅ } a' := by
  rw [playBlock, Noted.value_foldlM (appends_playLine macros b start)] at h
  exact plays_foldlM (f := fun a l ↦ (playLine macros b start a l).value)
    (fun _ _ _ h ↦ plays_playLine hm h k) h

theorem appends_playBlock (macros : Macro.Table) (a : Assembly) (b : Block) (start : Float) :
    (playBlock macros a b start).Appends :=
  .foldlM (appends_playLine macros b start) _ _

end Assembly

/-! ## The timeline

A block resets where the staves stand, and a voice begins each block at the block's start. -/

/-- How long a block lasts, in seconds. -/
def Block.seconds (b : Block) : Except Fault Float := do
  let beats ← b.beats
  let beat ← b.beatSeconds
  return beats * beat

theorem Block.meter_ok {b : Block} {beats beat : Float} (hbeats : b.beats = .ok beats)
    (hbeat : b.beatSeconds = .ok beat) (start : Float) : ∃ m, b.meter start = .ok m := by
  rw [Block.beats] at hbeats
  obtain ⟨measure, hmeasure, -⟩ := bind_eq_ok hbeats
  rw [Block.meter, hbeat, hmeasure]
  exact ⟨_, rfl⟩

namespace Timeline

theorem addBlock_value (macros : Macro.Table) (t : Timeline) (b : Block) :
    (addBlock macros t b).value = do
      let a ← (t.assembly.playBlock macros b t.secondsOffset).value
      let beats ← b.beats
      let beat ← b.beatSeconds
      return ⟨a, t.beatOffset + beats, t.secondsOffset + beats * beat⟩ := by
  rw [addBlock, Noted.value_bind fun _ ↦ .bind (.ofExcept _) fun _ ↦ .bind (.ofExcept _) fun _ ↦
    .bind (.note _) fun _ ↦ .pure _]
  refine congrArg _ (funext ?_)
  intro a
  rw [Noted.value_bind fun _ ↦ .bind (.ofExcept _) fun _ ↦ .bind (.note _) fun _ ↦ .pure _,
    Noted.value_ofExcept]
  refine congrArg _ (funext ?_)
  intro beats
  rw [Noted.value_bind fun _ ↦ .bind (.note _) fun _ ↦ .pure _, Noted.value_ofExcept]
  rfl

theorem appends_addBlock (macros : Macro.Table) (t : Timeline) (b : Block) :
    (addBlock macros t b).Appends :=
  .bind (t.assembly.appends_playBlock macros b _) fun _ ↦ .bind (.ofExcept _) fun _ ↦
    .bind (.ofExcept _) fun _ ↦ .bind (.note _) fun _ ↦ .pure _

/-- A block on the timeline: it has a meter and a length, the next one starts behind it, and every
voice has played its part. -/
theorem addBlock_ok {macros : Macro.Table} {t t' : Timeline} {b : Block}
    (h : (addBlock macros t b).value = .ok t') :
    ∃ m s, b.meter t.secondsOffset = .ok m ∧ b.seconds = .ok s ∧
      t'.secondsOffset = t.secondsOffset + s ∧
      ∀ k, Assembly.Plays m t.secondsOffset k (b.part macros k)
        { t.assembly with positions := ∅ } t'.assembly := by
  rw [addBlock_value] at h
  obtain ⟨a, ha, h⟩ := bind_eq_ok h
  obtain ⟨beats, hbeats, h⟩ := bind_eq_ok h
  obtain ⟨beat, hbeat, h⟩ := bind_eq_ok h
  cases h
  obtain ⟨m, hm⟩ := Block.meter_ok hbeats hbeat t.secondsOffset
  refine ⟨m, beats * beat, hm, ?_, rfl, fun k ↦ Assembly.plays_playBlock hm ha k⟩
  rw [Block.seconds, hbeats, ok_bind, hbeat]
  rfl

theorem ofBlocks_value (macros : Macro.Table) (e : Ensemble) (bs : List Block) :
    (ofBlocks macros e bs).value =
      bs.foldlM (fun t b ↦ (addBlock macros t b).value) { assembly := { ensemble := e } } :=
  Noted.value_foldlM (appends_addBlock macros) _ _

end Timeline

end TextScore
