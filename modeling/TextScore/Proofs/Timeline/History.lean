import Mathlib.Data.List.DropRight
import Mathlib.Data.List.Forall2
import TextScore.Proofs.Noted
import TextScore.Proofs.Timeline.Voice

/-!
# A voice and its history

A staff is played with a memory that changes from token to token.  What comes out does not need one:
where a note starts, how long it lasts and how high it is can be read off the tokens that stand
before it.

This module writes that down.  For an instrument and the blocks of a score, `wanted` is the list of
its notes with their times and pitches, each of them given by a formula in what stands before it:
the duration code is the note's own, or else that of the latest grid, or else the latest one
written; the octave is the latest one written; the clock is the start of the block, plus a measure
for every barline, plus the sounds since the latest barline; a block starts where the lengths of the
blocks before it end.  Nothing in these formulas is a state, and nothing in them mentions the
player.

The theorem is that the player, with its state, arrives at the same notes.  What makes that more
than an unfolding is that staves are interleaved: between two tokens of one staff any number of
others are played, on lines that name several instruments or the same one twice.  So the proof has
two halves.  `TextScore.Proofs.Timeline.Voice` shows that the others do not matter to a voice; this
module shows for one voice that its state is as good as its history.

## What is here

* `Staff.codeAt`, `Staff.octaveAt` — the duration code and the octave in force behind some tokens.
* `Staff.clockAt` — the time behind some tokens of a block.
* `Block.duration`, `startAfter` — how long a block lasts, and where the next one starts.
* `wanted` — the notes that a score asks of an instrument, each from what stands before it.
* `Staff.Remembers`, `Playing.Stands` — the state of a staff is what its history says.
* `Timeline.holds_ofBlocks` — the timeline holds just the notes that are wanted.
* `Timeline.times_ofBlocks` — when they start and how long they last.

Times are doubles, and equal means equal: the formulas add in the order in which the player adds,
and that order is part of what they say.  The order is the natural one, from left to right.

## Why the past is carried along

The definitions on lists of tokens take the tokens before them as an argument, and not the state
those lead to.  It would be shorter to say that a note is what the player makes of it in its state;
but then the statement would be about the player on both sides.  A history is data of the score.
-/

set_option autoImplicit false

namespace TextScore

open Text Number

/-! ## Duration codes

A grid hides the codes written before and after it.  So the latest code counts only if there is no
grid at all, on the staff as it was or among the tokens, and a code that was written under a grid is
never heard of again. -/

/-- The code of the latest grid token. -/
def lastGrid? (past : List Token) : Option String := (past.filterMap Token.grid?).getLast?

/-- The latest code written on a note, a chord or a rest. -/
def lastCode? (past : List Token) : Option String :=
  (past.filterMap fun t ↦ t.sound?.bind Sound.code?).getLast?

theorem lastGrid?_concat (past : List Token) (t : Token) :
    lastGrid? (past ++ [t]) = t.grid?.or (lastGrid? past) :=
  getLast?_filterMap_concat _ _ _

theorem lastCode?_concat (past : List Token) (t : Token) :
    lastCode? (past ++ [t]) = (t.sound?.bind Sound.code?).or (lastCode? past) :=
  getLast?_filterMap_concat _ _ _

/-- The duration code of a sound behind some tokens, on a staff that was `st` before them: its own,
or else the code of the latest grid, or else the latest one that was written. -/
def Staff.codeAt (st : Staff) (past : List Token) (code? : Option String) : String :=
  (code?.or ((lastGrid? past).or (st.grid?.or (lastCode? past)))).getD st.lastDuration

/-! ## Octaves

An octave is remembered by the note it is written on, and a chord is several notes: each of its
notes stands behind the ones before it. -/

/-- The octave that is written on a note, if a pitch letter is in front of it. -/
def writtenOctave? (text : String) : Option Int := do
  let p ← Pitch.Spelling.read? (Pitch.stripArticulation text.toList)
  let numeral ← p.octave?
  (readInt numeral).toOption

/-- The octave in force behind some notes: the latest one that was written. -/
def Staff.octaveAt (st : Staff) (texts : List String) : Int :=
  ((texts.filterMap writtenOctave?).getLast?).getD st.lastOctave

/-- The pitch of a note in a given octave; a text without a pitch letter is a C. -/
def pitchIn (octave : Int) (text : String) : Pitch :=
  match Pitch.Spelling.read? (Pitch.stripArticulation text.toList) with
  | some p => .ofSemitone (octave * 12 + p.letter + p.shift)
  | none => .firstOf octave

/-- The pitch of a note behind some notes. -/
def Staff.pitchAt (st : Staff) (past : List String) (text : String) : Pitch :=
  pitchIn (st.octaveAt (past ++ [text])) text

/-- The pitches of some notes behind some notes. -/
def Staff.pitchesAt (st : Staff) (past texts : List String) : List Pitch :=
  (withPast past texts).map fun x ↦ st.pitchAt x.1 x.2

/-! ## What a staff remembers

The state is less than the history, and what is kept is just enough.  While there is a grid the
staff does not follow the codes that are written, so the invariant says nothing about its last code
then; nothing is lost, because a grid is never taken away. -/

/-- What a staff remembers behind some tokens, if it was `st` before them: all that is needed, and
the latest code only as long as there was no grid. -/
structure Staff.Remembers (st : Staff) (past : List Token) (s : Staff) : Prop where
  /-- The latest grid. -/
  grid : s.grid? = (lastGrid? past).or st.grid?
  /-- The latest code, if there is no grid. -/
  code : s.grid? = none → s.lastDuration = (lastCode? past).getD st.lastDuration
  /-- The latest octave. -/
  octave : s.lastOctave = st.octaveAt (past.flatMap Token.pitchTexts)

namespace Staff

theorem remembers_nil (st : Staff) : st.Remembers [] st := ⟨rfl, fun _ ↦ rfl, rfl⟩

/-- The memory is as good as the history. -/
theorem Remembers.code_eq {st s : Staff} {past : List Token} (h : st.Remembers past s)
    (code? : Option String) : s.durationCode code? = st.codeAt past code? := by
  have hcode := h.code
  rw [durationCode, codeAt]
  cases code? with
  | some code => rfl
  | none =>
    rw [Option.getD_none, Option.none_or, ← Option.or_assoc, ← h.grid]
    cases hgrid : s.grid? with
    | some code => rfl
    | none => exact hcode hgrid

/-- The staff behind a token. -/
def after (s : Staff) (t : Token) : Staff :=
  match t.sound?, t.grid? with
  | some x, _ => { s.rememberDuration x.code? with lastOctave := s.octaveAt x.pitches }
  | none, some code => s.setGrid code
  | none, none => s

theorem grid?_rememberDuration (s : Staff) (code? : Option String) :
    (s.rememberDuration code?).grid? = s.grid? := by
  rcases code? with _ | code
  · rfl
  · cases h : s.grid? <;> simp only [rememberDuration, h]

theorem lastOctave_rememberDuration (s : Staff) (code? : Option String) :
    (s.rememberDuration code?).lastOctave = s.lastOctave := by
  rcases code? with _ | code
  · rfl
  · cases h : s.grid? <;> simp only [rememberDuration, h]

theorem lastDuration_rememberDuration {s : Staff} (h : s.grid? = none) (code? : Option String) :
    (s.rememberDuration code?).lastDuration = code?.getD s.lastDuration := by
  cases code? with
  | none => rfl
  | some code => simp only [rememberDuration, h, Option.getD_some]

theorem grid?_after (s : Staff) (t : Token) : (s.after t).grid? = t.grid?.or s.grid? := by
  rw [after]
  cases t
  case grid code => rfl
  case pitch | chord | rest => exact s.grid?_rememberDuration _
  all_goals rfl

theorem lastDuration_after {s : Staff} {t : Token} (h : (s.after t).grid? = none) :
    (s.after t).lastDuration = (t.sound?.bind Sound.code?).getD s.lastDuration := by
  rw [grid?_after, Option.or_eq_none_iff] at h
  rw [after]
  cases t
  case grid code => cases h.1
  case pitch | chord | rest => exact lastDuration_rememberDuration h.2 _
  all_goals rfl

theorem lastOctave_after (s : Staff) (t : Token) :
    (s.after t).lastOctave = s.octaveAt t.pitchTexts := by
  rw [after, Token.pitchTexts]
  cases t <;> rfl

/-- The octave behind some notes, on a staff with the octave behind those before. -/
theorem octaveAt_eq_append {st s : Staff} {texts : List String}
    (h : s.lastOctave = st.octaveAt texts) (more : List String) :
    s.octaveAt more = st.octaveAt (texts ++ more) := by
  rw [octaveAt, octaveAt, h, octaveAt, List.filterMap_append, List.getLast?_append]
  cases (more.filterMap writtenOctave?).getLast? <;> rfl

/-- The same for the pitches of some notes. -/
theorem pitchesAt_eq_append {st s : Staff} {texts : List String}
    (h : s.lastOctave = st.octaveAt texts) (past more : List String) :
    s.pitchesAt past more = st.pitchesAt (texts ++ past) more := by
  induction more generalizing past with
  | nil => rfl
  | cons text more ih =>
    have hpitch : s.pitchAt past text = st.pitchAt (texts ++ past) text := by
      rw [pitchAt, pitchAt, octaveAt_eq_append h, List.append_assoc]
    have := ih (past ++ [text])
    rw [pitchesAt, pitchesAt, ← List.append_assoc] at this
    rw [pitchesAt, pitchesAt, withPast, withPast, List.map_cons, List.map_cons, hpitch, this]

theorem pitchesAt_append (st : Staff) (past texts more : List String) :
    st.pitchesAt past (texts ++ more) =
      st.pitchesAt past texts ++ st.pitchesAt (past ++ texts) more := by
  rw [pitchesAt, withPast_append, List.map_append, pitchesAt, pitchesAt]

/-- One token more is one token more to remember. -/
theorem Remembers.after {st s : Staff} {past : List Token} (h : st.Remembers past s) (t : Token) :
    st.Remembers (past ++ [t]) (s.after t) where
  grid := by
    rw [grid?_after, h.grid, lastGrid?_concat, Option.or_assoc]
  code := fun hgrid ↦ by
    have hs : s.grid? = none := (Option.or_eq_none_iff.mp ((s.grid?_after t).symm.trans hgrid)).2
    rw [lastDuration_after hgrid, h.code hs, lastCode?_concat]
    cases t.sound?.bind Sound.code? <;> rfl
  octave := by
    rw [lastOctave_after, octaveAt_eq_append h.octave, List.flatMap_append, List.flatMap_singleton]

theorem takePitch_ok {st st' : Staff} {text : String} {pitch : Pitch}
    (h : st.takePitch text = .ok (st', pitch)) :
    st' = { st with lastOctave := st.octaveAt [text] } ∧ pitch = st.pitchAt [] text := by
  rw [takePitch, resolvePitch] at h
  rw [pitchAt, pitchIn, List.nil_append, octaveAt, List.filterMap_cons, writtenOctave?]
  -- an unreadable pitch sounds in the octave that is carried, and a readable one may set it
  cases hp : Pitch.Spelling.read? (Pitch.stripArticulation text.toList) with
  | none =>
    rw [hp] at h
    simp only [ok_bind] at h
    split at h
    · cases h
      exact ⟨rfl, rfl⟩
    · cases h
  | some p =>
    rw [hp] at h
    cases ho : p.octave? with
    | none =>
      simp only [ho, ok_bind] at h
      cases h
      simp [ho]
    | some numeral =>
      simp only [ho] at h
      obtain ⟨q, hq, h⟩ := bind_eq_ok h
      obtain ⟨octave, hoctave, hq⟩ := bind_eq_ok hq
      cases hq
      cases h
      simp [ho, hoctave, Except.toOption]

end Staff

/-! ## Times

A barline throws away where the clock stood, so the clock depends on the tokens since the latest
barline and on the number of barlines before.  With no barline yet, the measure that counts is the
first one, and its start is that of the block itself, to the last bit. -/

/-- How long a sound lasts behind some tokens, in seconds. -/
def Staff.secondsAt (st : Staff) (m : Meter) (past : List Token) (code? : Option String) : Float :=
  Duration.beats (st.codeAt past code?) * m.beat

/-- How long the sounds among some tokens last, one after the other. -/
def Staff.lengths (st : Staff) (m : Meter) (past ts : List Token) : List Float :=
  (withPast past ts).filterMap fun x ↦ x.2.sound?.map fun s ↦ st.secondsAt m x.1 s.code?

/-- The start of the measure behind some barlines: as many measures behind the start of the block as
there were barlines. -/
def Meter.base (m : Meter) (barlines : Nat) : Float :=
  if barlines = 0 then m.start else m.start + Float.ofNat barlines * m.measure

/-- The time behind some tokens of a block: from the start of the measure of the latest barline,
all sounds since that barline. -/
def Staff.clockAt (st : Staff) (m : Meter) (before past : List Token) : Float :=
  (st.lengths m (before ++ past.rdropWhile (!·.isBarline)) (past.rtakeWhile (!·.isBarline))).foldl
    (· + ·) (m.base (past.countP Token.isBarline))

/-! ## The notes of a score

A note of the timeline has the name of the sounding pitch and the time; a wanted note has the
written pitch.  Between them stands the transposition of the instrument, which is the same for all
its notes. -/

/-- A note that is asked for, as it is written. -/
structure Wanted where
  /-- When it starts, in seconds. -/
  start : Float
  /-- How long it lasts, in seconds. -/
  duration : Float
  /-- The written pitch. -/
  pitch : Pitch

/-- The note is what an instrument makes of the written one. -/
def Wanted.Sounds (i : Instrument) (w : Wanted) (n : NoteEvent) : Prop :=
  n.start = w.start ∧ n.duration = w.duration ∧
    (w.pitch.transpose i.transpose).name = .ok n.pitch

theorem Wanted.map_times {i : Instrument} {ws : List Wanted} {ns : List NoteEvent}
    (h : List.Forall₂ (Sounds i) ws ns) :
    ns.map (fun n ↦ (n.start, n.duration)) = ws.map fun w ↦ (w.start, w.duration) := by
  induction h with
  | nil => rfl
  | cons h _ ih => rw [List.map_cons, List.map_cons, ih, h.1, h.2.1]

/-- Between two states a staff has played some notes. -/
def Playing.Played (i : Instrument) (ws : List Wanted) (p q : Playing) : Prop :=
  ∃ ns, q.events.toList = p.events.toList ++ ns ∧ List.Forall₂ (Wanted.Sounds i) ws ns

namespace Playing

variable {i : Instrument}

theorem Played.refl {p q : Playing} (h : q.events = p.events) : Played i [] p q :=
  ⟨[], by rw [h, List.append_nil], .nil⟩

theorem Played.trans {vs ws : List Wanted} {p q r : Playing} (h : Played i vs p q)
    (h' : Played i ws q r) : Played i (vs ++ ws) p r := by
  obtain ⟨ms, hq, hms⟩ := h
  obtain ⟨ns, hr, hns⟩ := h'
  exact ⟨ms ++ ns, by rw [hr, hq, List.append_assoc], List.rel_append hms hns⟩

/-- The notes of a sound, on a staff as it stands: all start at once and last equally long. -/
def chord (m : Meter) (p : Playing) (s : Sound) : List Wanted :=
  (p.staff.pitchesAt [] s.pitches).map (.mk p.position.clock (p.secondsOf m s.code?))

theorem emit_ok {duration : Float} {p q : Playing} {text : String}
    (h : (emit i duration p text).value = .ok q) :
    q.staff = { p.staff with lastOctave := p.staff.octaveAt [text] } ∧ q.position = p.position ∧
      Played i [⟨p.position.clock, duration, p.staff.pitchAt [] text⟩] p q := by
  rw [emit_value] at h
  obtain ⟨⟨st, pitch⟩, hpitch, h⟩ := bind_eq_ok h
  obtain ⟨name, hname, h⟩ := bind_eq_ok h
  obtain ⟨hst, hp⟩ := Staff.takePitch_ok hpitch
  obtain rfl := Except.ok.inj h
  rw [← hp, ← hst]
  exact ⟨rfl, rfl, [_], Array.toList_push, .cons ⟨rfl, rfl, hname⟩ .nil⟩

theorem emitAll_ok {duration : Float} {p q : Playing} {texts : List String}
    (h : emitAll i duration p texts = .ok q) :
    q.staff = { p.staff with lastOctave := p.staff.octaveAt texts } ∧ q.position = p.position ∧
      Played i ((p.staff.pitchesAt [] texts).map (.mk p.position.clock duration)) p q := by
  refine foldlM_invariant (P := fun past q ↦
    q.staff = { p.staff with lastOctave := p.staff.octaveAt past } ∧ q.position = p.position ∧
      Played i ((p.staff.pitchesAt [] past).map (.mk p.position.clock duration)) p q)
    ?_ ⟨rfl, rfl, .refl rfl⟩ h
  rintro past q text r ⟨hstaff, hposition, hplayed⟩ hr
  obtain ⟨hstaff', hposition', hplayed'⟩ := emit_ok hr
  have hoctave : q.staff.lastOctave = p.staff.octaveAt past := by rw [hstaff]
  refine ⟨?_, hposition'.trans hposition, ?_⟩
  · rw [hstaff', Staff.octaveAt_eq_append hoctave, hstaff]
  · have hpitch : q.staff.pitchAt [] text = p.staff.pitchAt past text := by
      rw [Staff.pitchAt, Staff.pitchAt, List.nil_append, Staff.octaveAt_eq_append hoctave]
    rw [hposition, hpitch] at hplayed'
    rw [Staff.pitchesAt_append, List.map_append]
    exact hplayed.trans hplayed'

/-- Where a staff stands behind a token. -/
def positionAfter (m : Meter) (p : Playing) (t : Token) : Position :=
  match t.sound? with
  | some s => { p.position with clock := p.position.clock + p.secondsOf m s.code? }
  | none =>
    if t.isBarline then ⟨m.afterBarlines (p.position.barlines + 1), p.position.barlines + 1⟩
    else p.position

/-- A token: what the staff remembers, where it stands, and what it has played. -/
theorem step_ok {m : Meter} {p q : Playing} {t : Token} (h : (step m i p t).value = .ok q) :
    q.staff = p.staff.after t ∧ q.position = p.positionAfter m t ∧
      Played i (t.sound?.elim [] (p.chord m)) p q := by
  cases hs : t.sound? with
  | some s =>
    rw [step_value_of_sound hs] at h
    obtain ⟨r, hr, rfl⟩ := map_eq_ok h
    obtain ⟨hstaff, hposition, ns, hevents, hns⟩ := emitAll_ok hr
    have hoctave (texts : List String) :
        (p.remember s.code?).staff.octaveAt texts = p.staff.octaveAt texts := by
      rw [remember, Staff.octaveAt, Staff.octaveAt, Staff.lastOctave_rememberDuration]
    refine ⟨?_, ?_, ns, hevents, ?_⟩
    · rw [advance, hstaff, hoctave, Staff.after, hs]
      rfl
    · rw [advance, hposition, positionAfter, hs]
      rfl
    · rw [Staff.pitchesAt_eq_append (hoctave []), List.nil_append] at hns
      exact hns
  | none =>
    rw [step_value_of_silent hs] at h
    cases h
    cases t <;> cases hs <;> exact ⟨rfl, rfl, .refl rfl⟩

end Playing

/-- The notes of a sound: all of them start at the clock and last equally long. -/
def Staff.chordAt (st : Staff) (m : Meter) (before past : List Token) (s : Sound) : List Wanted :=
  (st.pitchesAt ((before ++ past).flatMap Token.pitchTexts) s.pitches).map
    (.mk (st.clockAt m before past) (st.secondsAt m (before ++ past) s.code?))

/-- The notes of some tokens of a block, behind other tokens of it, on a staff that was `st` before
the tokens `before`. -/
def Staff.notesBehind (st : Staff) (m : Meter) (before past ts : List Token) : List Wanted :=
  (withPast past ts).flatMap fun x ↦ x.2.sound?.elim [] (st.chordAt m before x.1)

/-- The notes of all tokens of a block. -/
def Staff.notesAt (st : Staff) (m : Meter) (before ts : List Token) : List Wanted :=
  st.notesBehind m before [] ts

/-- How long a block lasts, in seconds: as many measures as it has, and at least one, of so many
quarter notes as its time signature says, each of which lasts a minute by the tempo. -/
def Block.duration (b : Block) : Float :=
  Float.ofInt (max 1 (b.last - b.first + 1)) *
    (Float.ofInt b.timeSignature.numerator * (4 / Float.ofInt b.timeSignature.denominator)) *
    (60 / b.tempo)

/-- When the block behind some blocks starts: their lengths, added up from zero. -/
def startAfter (bs : List Block) : Float := bs.foldl (fun start b ↦ start + b.duration) 0

/-- The start of a block, the length of a quarter note in it, and that of a measure. -/
def Block.timing (b : Block) (start : Float) : Meter where
  start := start
  beat := 60 / b.tempo
  measure := Float.ofInt b.timeSignature.numerator *
    (4 / Float.ofInt b.timeSignature.denominator) * (60 / b.tempo)

/-- What blocks yield, each behind those before it, one after the other. -/
def collectBehind {α : Type} (f : List Block → Block → List α) (bs : List Block) : List α :=
  (withPast [] bs).flatMap fun x ↦ f x.1 x.2

/-- The notes that a block asks of an instrument, behind some blocks. -/
def Block.wanted (macros : Macro.Table) (st : Staff) (id : String) (earlier : List Block)
    (b : Block) : List Wanted :=
  st.notesAt (b.timing (startAfter earlier)) (earlier.flatMap (Block.part macros id))
    (b.part macros id)

/-- The notes that a score asks of an instrument. -/
def wanted (macros : Macro.Table) (st : Staff) (id : String) (bs : List Block) : List Wanted :=
  collectBehind (Block.wanted macros st id) bs

/-! ## A run of tokens

The induction is on the tokens of a block.  What it carries is `Stands`: the staff remembers its
history, and the clock is where the history puts it. -/

namespace Staff

theorem lengths_concat (st : Staff) (m : Meter) (past ts : List Token) (t : Token) :
    st.lengths m past (ts ++ [t]) =
      st.lengths m past ts ++
        (t.sound?.map fun s ↦ st.secondsAt m (past ++ ts) s.code?).toList := by
  rw [lengths, withPast_append, List.filterMap_append, lengths]
  refine congrArg _ ?_
  cases h : t.sound? <;> simp [withPast, h]

theorem clockAt_barline (st : Staff) (m : Meter) (before past : List Token) {t : Token}
    (h : t.isBarline = true) :
    st.clockAt m before (past ++ [t]) = m.afterBarlines (past.countP Token.isBarline + 1) := by
  have ht : ¬(!t.isBarline) = true := by rw [h]; exact Bool.false_ne_true
  rw [clockAt, List.rtakeWhile_concat_neg (!·.isBarline) past t ht, List.countP_append,
    List.countP_singleton, if_pos h]
  rfl

theorem clockAt_concat (st : Staff) (m : Meter) (before past : List Token) {t : Token}
    (h : t.isBarline = false) :
    st.clockAt m before (past ++ [t]) =
      (t.sound?.map fun s ↦ st.secondsAt m (before ++ past) s.code?).toList.foldl (· + ·)
        (st.clockAt m before past) := by
  have ht : (!t.isBarline) = true := by rw [h]; rfl
  rw [clockAt, List.rtakeWhile_concat_pos (!·.isBarline) past t ht,
    List.rdropWhile_concat_pos (!·.isBarline) past t ht, lengths_concat, List.foldl_append,
    List.append_assoc, List.rdropWhile_append_rtakeWhile, List.countP_append,
    List.countP_singleton, h, clockAt]
  rfl

end Staff

namespace Playing

/-- Behind some tokens of a block, a staff that was `st` before the tokens `before` stands where
its history puts it. -/
structure Stands (st : Staff) (m : Meter) (before past : List Token) (p : Playing) : Prop where
  /-- What it remembers. -/
  staff : st.Remembers (before ++ past) p.staff
  /-- How many barlines it has met. -/
  barlines : p.position.barlines = past.countP Token.isBarline
  /-- Its clock. -/
  clock : p.position.clock = st.clockAt m before past

namespace Stands

variable {st : Staff} {m : Meter} {before past : List Token} {p : Playing}

theorem secondsOf_eq (h : Stands st m before past p) (code? : Option String) :
    p.secondsOf m code? = st.secondsAt m (before ++ past) code? := by
  rw [secondsOf, h.staff.code_eq, Staff.secondsAt]

theorem chord_eq (h : Stands st m before past p) (s : Sound) :
    p.chord m s = st.chordAt m before past s := by
  rw [chord, Staff.chordAt, h.clock, h.secondsOf_eq, Staff.pitchesAt_eq_append h.staff.octave,
    List.append_nil]

/-- One token more. -/
theorem positionAfter (h : Stands st m before past p) (t : Token) :
    (p.positionAfter m t).barlines = (past ++ [t]).countP Token.isBarline ∧
      (p.positionAfter m t).clock = st.clockAt m before (past ++ [t]) := by
  rw [List.countP_append, List.countP_singleton, ← h.barlines, Playing.positionAfter]
  cases ht : t.isBarline with
  | true =>
    rw [st.clockAt_barline m before past ht, ← h.barlines]
    cases t <;> cases ht
    exact ⟨rfl, rfl⟩
  | false =>
    rw [st.clockAt_concat m before past ht]
    cases t.sound? with
    | some s =>
      rw [Option.map_some, ← h.clock, ← h.secondsOf_eq]
      exact ⟨rfl, rfl⟩
    | none => exact ⟨rfl, h.clock⟩

theorem step {q : Playing} {t : Token} {i : Instrument} (h : Stands st m before past p)
    (hq : (Playing.step m i p t).value = .ok q) :
    Stands st m before (past ++ [t]) q ∧
      Played i (t.sound?.elim [] (st.chordAt m before past)) p q := by
  obtain ⟨hstaff, hposition, hplayed⟩ := step_ok hq
  refine ⟨⟨?_, ?_, ?_⟩, ?_⟩
  · rw [hstaff, ← List.append_assoc]
    exact h.staff.after t
  · rw [hposition, (h.positionAfter t).1]
  · rw [hposition, (h.positionAfter t).2]
  · rwa [funext h.chord_eq] at hplayed

/-- Some tokens of a block, behind others. -/
theorem play {q : Playing} {ts : List Token} {i : Instrument} (h : Stands st m before past p)
    (hq : Playing.play m i p ts = .ok q) :
    Stands st m before (past ++ ts) q ∧ Played i (st.notesBehind m before past ts) p q := by
  refine foldlM_invariant (P := fun us q ↦
    Stands st m before (past ++ us) q ∧ Played i (st.notesBehind m before past us) p q)
    ?_ ⟨(List.append_nil past).symm ▸ h, .refl rfl⟩ hq
  rintro us q t r ⟨hstands, hplayed⟩ hr
  obtain ⟨hstands', hplayed'⟩ := hstands.step hr
  refine ⟨by rwa [← List.append_assoc], ?_⟩
  rw [Staff.notesBehind, withPast_append, List.flatMap_append]
  refine hplayed.trans ?_
  rwa [withPast, withPast, List.flatMap_singleton]

end Stands

end Playing

/-! ## A run of blocks

The induction is on the blocks, and `Holds` is what it carries.  A block does not begin where its
staves stand, so of the state of a voice only its memory goes on from one block to the next. -/

theorem Number.eq_of_ofInt {n : Int} {x : Float} (h : ofInt n = .ok x) : x = Float.ofInt n := by
  rw [ofInt] at h
  split_ifs at h
  exact (Except.ok.inj h).symm

theorem Number.eq_of_divide {x y z : Float} (h : divide x y = .ok z) : z = x / y := by
  rw [divide] at h
  split_ifs at h
  exact (Except.ok.inj h).symm

/-- A block that lasts has a meter, and both are as the formulas say. -/
theorem Block.seconds_ok {b : Block} {x : Float} (h : b.seconds = .ok x) :
    x = b.duration ∧ ∀ start, b.meter start = .ok (b.timing start) := by
  obtain ⟨beats, hbeats, h⟩ := bind_eq_ok h
  obtain ⟨beat, hbeat, h⟩ := bind_eq_ok h
  obtain rfl := Except.ok.inj h
  obtain ⟨perMeasure, hperMeasure, hbeats⟩ := bind_eq_ok hbeats
  obtain ⟨count, hcount, hbeats⟩ := bind_eq_ok hbeats
  obtain rfl := Except.ok.inj hbeats
  have hmeasure := hperMeasure
  obtain ⟨denominator, hdenominator, hmeasure⟩ := bind_eq_ok hmeasure
  obtain ⟨quarter, hquarter, hmeasure⟩ := bind_eq_ok hmeasure
  obtain ⟨numerator, hnumerator, hmeasure⟩ := bind_eq_ok hmeasure
  obtain rfl := Except.ok.inj hmeasure
  have hmeter (start : Float) : b.meter start =
      .ok ⟨start, beat, numerator * quarter * beat⟩ := by
    rw [meter, hbeat, ok_bind, hperMeasure]
    rfl
  obtain rfl := eq_of_ofInt hcount
  obtain rfl := eq_of_ofInt hnumerator
  obtain rfl := eq_of_ofInt hdenominator
  obtain rfl := eq_of_divide hquarter
  obtain rfl := eq_of_divide hbeat
  exact ⟨rfl, hmeter⟩

theorem startAfter_concat (bs : List Block) (b : Block) :
    startAfter (bs ++ [b]) = startAfter bs + b.duration := by
  rw [startAfter, List.foldl_append]
  rfl

/-- One block more yields what it yields behind the others. -/
theorem collectBehind_concat {α : Type} (f : List Block → Block → List α) (bs : List Block)
    (b : Block) : collectBehind f (bs ++ [b]) = collectBehind f bs ++ f bs b := by
  rw [collectBehind, withPast_append, List.flatMap_append]
  exact congrArg _ (List.flatMap_singleton _ (bs, b))

theorem Staff.map_pitch_notesAt (st : Staff) (m : Meter) (before ts : List Token) :
    (st.notesAt m before ts).map Wanted.pitch =
      st.pitchesAt (before.flatMap Token.pitchTexts) (ts.flatMap Token.pitchTexts) := by
  induction ts using List.reverseRecOn with
  | nil => rfl
  | append_singleton ts t ih =>
    rw [notesAt, notesBehind, withPast_append, List.flatMap_append, List.map_append, ← notesBehind,
      ← notesAt, ih, List.flatMap_append, pitchesAt_append, withPast, withPast,
      List.flatMap_singleton, List.flatMap_singleton, List.nil_append, Token.pitchTexts]
    refine congrArg _ ?_
    cases t.sound? with
    | none => rfl
    | some s =>
      rw [Option.elim_some, Option.elim_some, chordAt, List.map_map, ← List.flatMap_append]
      exact List.map_id _

/-- The pitches that a score asks of an instrument. -/
theorem map_pitch_wanted (macros : Macro.Table) (st : Staff) (id : String) (bs : List Block) :
    (wanted macros st id bs).map Wanted.pitch =
      st.pitchesAt [] ((bs.flatMap (Block.part macros id)).flatMap Token.pitchTexts) := by
  induction bs using List.reverseRecOn with
  | nil => rfl
  | append_singleton bs b ih =>
    rw [wanted, collectBehind_concat, List.map_append, ← wanted, ih, Block.wanted,
      Staff.map_pitch_notesAt, List.flatMap_append, List.flatMap_append, Staff.pitchesAt_append,
      List.flatMap_singleton, List.nil_append]

namespace Timeline

/-- Behind some blocks the timeline holds, of every instrument, the notes that they ask of it; and
the next block starts behind them. -/
structure Holds (macros : Macro.Table) (e : Ensemble) (id : String) (bs : List Block)
    (t : Timeline) : Prop where
  /-- The instrument is the same as before. -/
  player : t.assembly.ensemble.player id = e.player id
  /-- Its staff remembers its tokens. -/
  memory : (e.memory id).Remembers (bs.flatMap (Block.part macros id))
    (t.assembly.ensemble.memory id)
  /-- The next block starts here. -/
  start : t.secondsOffset = startAfter bs
  /-- All blocks last. -/
  seconds : ∀ b ∈ bs, ∃ x, b.seconds = .ok x
  /-- The notes are there. -/
  notes : List.Forall₂ (Wanted.Sounds (e.player id)) (wanted macros (e.memory id) id bs)
    (notesOf id t.assembly.events).toList

/-- At the start of the next block the staff stands where its history puts it. -/
theorem Holds.stands {macros : Macro.Table} {e : Ensemble} {id : String} {bs : List Block}
    {b : Block} {t : Timeline} (h : Holds macros e id bs t) :
    Playing.Stands (e.memory id) (b.timing (startAfter bs)) (bs.flatMap (Block.part macros id)) []
      ({ t.assembly with positions := ∅ }.voice t.secondsOffset id) where
  staff := by
    rw [List.append_nil]
    exact h.memory
  barlines := rfl
  clock := h.start

/-- One block more. -/
theorem Holds.addBlock {macros : Macro.Table} {e : Ensemble} {id : String} {bs : List Block}
    {b : Block} {t t' : Timeline} (h : Holds macros e id bs t)
    (ht : (addBlock macros t b).value = .ok t') : Holds macros e id (bs ++ [b]) t' := by
  obtain ⟨m, seconds, hm, hseconds, hoffset, hplays⟩ := addBlock_ok ht
  obtain ⟨rfl, hmeter⟩ := Block.seconds_ok hseconds
  -- the block starts where the history says
  rw [hmeter, h.start] at hm
  obtain rfl := Except.ok.inj hm
  obtain ⟨hstands', ns, hevents, hns⟩ := h.stands.play (hplays id).voice
  have hplayer : ({ t.assembly with positions := ∅ } : Assembly).ensemble.player id =
    e.player id := h.player
  refine ⟨(hplays id).player.trans h.player, ?_, ?_, ?_, ?_⟩
  · rw [List.flatMap_append, List.flatMap_singleton]
    exact hstands'.staff
  · rw [startAfter_concat, hoffset, h.start]
  · intro c hc
    rcases List.mem_append.mp hc with hc | hc
    · exact h.seconds c hc
    · obtain rfl := List.mem_singleton.mp hc
      exact ⟨_, hseconds⟩
  · rw [hplayer] at hns
    have hnotes : (notesOf id t'.assembly.events).toList =
      (notesOf id t.assembly.events).toList ++ ns := hevents
    rw [hnotes, wanted, collectBehind_concat]
    exact List.rel_append h.notes hns

/-- Before all blocks nothing has been played. -/
theorem holds_nil (macros : Macro.Table) (e : Ensemble) (id : String) :
    Holds macros e id [] { assembly := { ensemble := e } } :=
  ⟨rfl, (e.memory id).remembers_nil, rfl, fun _ hb ↦ absurd hb List.not_mem_nil, .nil⟩

/-- The timeline of a score holds the notes that the score asks of every instrument. -/
theorem holds_ofBlocks {macros : Macro.Table} {e : Ensemble} {bs : List Block} {t : Timeline}
    (h : (ofBlocks macros e bs).value = .ok t) (id : String) : Holds macros e id bs t := by
  rw [ofBlocks_value] at h
  exact foldlM_invariant (P := Holds macros e id) (fun _ _ _ _ hs ht ↦ hs.addBlock ht)
    (holds_nil macros e id) h

/-- **Times.**  In every timeline an instrument plays just the notes that its tokens ask for, and in
their order.  They start and last as the tokens say: from the start of the block, the latest
barline, and the sounds since.  The notes of a chord come in the order in which they are written and
have the same times.   The first part pairs each note with the one that is wanted at its place,
pitch included; the second one is the same list of times, so that no note is missing and none is too
many. -/
theorem times_ofBlocks {macros : Macro.Table} {e : Ensemble} {bs : List Block} {t : Timeline}
    (h : (ofBlocks macros e bs).value = .ok t) (id : String) :
    List.Forall₂ (Wanted.Sounds (e.player id)) (wanted macros (e.memory id) id bs)
        (notesOf id t.assembly.events).toList ∧
      (notesOf id t.assembly.events).toList.map (fun n ↦ (n.start, n.duration)) =
        (wanted macros (e.memory id) id bs).map fun w ↦ (w.start, w.duration) :=
  have hsounds := (holds_ofBlocks h id).notes
  ⟨hsounds, Wanted.map_times hsounds⟩

/-- Two staves of two blocks, with a shared line, a chord, a short measure and an overfull one. -/
def twoStaves : List Block := [
  ⟨1, 1, 120, ⟨3, 4⟩, [(2, "p, q: c5:8 [d e] | g".toList), (3, "p: r:1 c".toList)]⟩,
  ⟨2, 2, 90, ⟨3, 4⟩, [(5, "p: f".toList)]⟩]

theorem times_ofBlocks_twoStaves :
    ∃ t, (ofBlocks ∅ { defaults := {} } twoStaves).value = .ok t ∧
      List.Forall₂ (Wanted.Sounds (Ensemble.player { defaults := {} } "p"))
        (wanted ∅ (Ensemble.memory { defaults := {} } "p") "p" twoStaves)
        (notesOf "p" t.assembly.events).toList ∧
      (notesOf "p" t.assembly.events).toList.map (fun n ↦ (n.start, n.duration)) =
        (wanted ∅ (Ensemble.memory { defaults := {} } "p") "p" twoStaves).map
          (fun w ↦ (w.start, w.duration)) ∧
      (notesOf "p" t.assembly.events).toList.map (fun n ↦ (n.pitch, n.start, n.duration)) =
        [("C5", 0, 0.25), ("D5", 0.25, 0.25), ("E5", 0.25, 0.25), ("G5", 1.5, 0.25),
          ("C5", 3.75, 2), ("F5", 1.5, 4 * (60 / 90))] := by
  obtain ⟨t, ht, hshown⟩ := exists_ok_of_any
    (x := (ofBlocks ∅ { defaults := {} } twoStaves).value) (f := fun t ↦
      (notesOf "p" t.assembly.events).toList.map (fun n ↦ (n.pitch, n.start, n.duration)) =
        [("C5", 0, 0.25), ("D5", 0.25, 0.25), ("E5", 0.25, 0.25), ("G5", 1.5, 0.25),
          ("C5", 3.75, 2), ("F5", 1.5, 4 * (60 / 90))]) (by decide +kernel)
  obtain ⟨hsounds, htimes⟩ := times_ofBlocks ht "p"
  exact ⟨t, ht, hsounds, htimes, of_decide_eq_true hshown⟩

end Timeline

end TextScore
