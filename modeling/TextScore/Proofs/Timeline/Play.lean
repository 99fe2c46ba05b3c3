import TextScore.Proofs.Noted
import TextScore.Timeline

/-!
# What a staff makes of its tokens

The steps of a staff seen through what they yield.  Notes, chords and rests are three kinds of
tokens to the player and one to the proofs: a `Sound`, pitches that sound together, perhaps none,
and the duration code written on them.  After that there are two cases for a token, it takes time or
it does not, and every statement about a step is proved for these.

## What is here

* `Playing.play` — a staff plays some tokens.
* `Playing.step_of_sound`, `Playing.emit_value` — what a sound does to a staff.
* `Playing.step_value_of_silent` — what any other token does.
* `Playing.play_behind` — the notes played before do not matter.
* `Playing.play_signed` — every note bears the id and the name of its instrument.

The notes of all staves stand in one array, and a staff adds its own behind it.  By `play_behind` a
run on that array is a run on an empty one, so that from here on a staff can be looked at alone.
-/

set_option autoImplicit false

namespace TextScore

open Text Number

/-- What a token asks for if it takes time. -/
structure Sound where
  /-- The notes that sound together; a rest has none. -/
  pitches : List String
  /-- The duration code that is written on the token. -/
  code? : Option String
  deriving DecidableEq, Repr

namespace Token

/-- The sound of a note, a chord or a rest; other tokens take no time. -/
def sound? : Token → Option Sound
  | rest code? => some ⟨[], code?⟩
  | pitch text code? => some ⟨[text], code?⟩
  | chord pitches code? => some ⟨pitches, code?⟩
  | _ => none

/-- The code of a grid token. -/
def grid? : Token → Option String
  | grid code => some code
  | _ => none

/-- The token is a barline. -/
def isBarline : Token → Bool
  | barline => true
  | _ => false

/-- The texts of the notes of a token, in order. -/
def pitchTexts (t : Token) : List String := t.sound?.elim [] Sound.pitches

end Token

/-! ## One note

What is reported on the way is left out here, but not that reporting can fail: the message about a
text without a pitch letter names the octave, and the octave has to be short enough for that. -/

/-- The pitch of a note and what the staff remembers then.  A text that starts with no pitch letter
counts as a C, if the octave is short enough to be reported. -/
def Staff.takePitch (st : Staff) (text : String) : Except Fault (Staff × Pitch) := do
  match ← st.resolvePitch (Pitch.stripArticulation text.toList) with
  | (st, some pitch) => return (st, pitch)
  | (st, none) =>
    if isWritable st.lastOctave then return (st, .firstOf st.lastOctave)
    else .error .numeralTooLong

namespace Playing

theorem takeDuration_value (m : Meter) (p : Playing) (code? : Option String) :
    (p.takeDuration m code?).value =
      .ok ({ p with staff := p.staff.rememberDuration code? },
        Duration.beats (p.staff.durationCode code?) * m.beat) := by
  rw [takeDuration]
  split <;> rfl

theorem appends_takeDuration (m : Meter) (p : Playing) (code? : Option String) :
    (p.takeDuration m code?).Appends := by
  rw [takeDuration]
  split
  · exact .bind (.note _) fun _ ↦ .pure _
  · exact .pure _

theorem takePitch_value (p : Playing) (text : String) :
    (p.takePitch text).value =
      (p.staff.takePitch text).map fun q ↦ ({ p with staff := q.1 }, q.2) := by
  rw [takePitch, Staff.takePitch]
  rcases p.staff.resolvePitch (Pitch.stripArticulation text.toList) with f | ⟨st, pitch | _⟩
  · rfl
  · simp only [Noted.ofExcept, pure_bind, ok_bind]
    generalize isWritable st.lastOctave = w
    cases w <;> rfl
  · rfl

theorem appends_takePitch (p : Playing) (text : String) : (p.takePitch text).Appends := by
  rw [takePitch]
  refine .bind (.ofExcept _) ?_
  rintro ⟨st, pitch?⟩
  cases pitch? with
  | some pitch => exact .pure _
  | none =>
    dsimp only
    split
    · exact .bind (.fail _) fun _ ↦ .bind (.note _) fun _ ↦ .pure _
    · exact .bind (.note _) fun _ ↦ .pure _

/-- A note: its pitch, then its name. -/
theorem emit_value (i : Instrument) (duration : Float) (p : Playing) (text : String) :
    (p.emit i duration text).value = do
      let (st, pitch) ← p.staff.takePitch text
      let name ← (pitch.transpose i.transpose).name
      return { p with
        staff := st
        events := p.events.push ⟨name, p.position.clock, duration, i.id, i.displayName⟩ } := by
  rw [emit, Noted.value_bind, takePitch_value]
  · rcases p.staff.takePitch text with f | ⟨st, pitch⟩
    · rfl
    · simp only [Except.map, ok_bind]
      rw [Noted.value_bind fun _ ↦ .pure _, Noted.value_ofExcept]
      rfl
  · rintro ⟨q, pitch⟩
    exact .bind (.ofExcept _) fun _ ↦ .pure _

theorem appends_emit (i : Instrument) (duration : Float) (p : Playing) (text : String) :
    (p.emit i duration text).Appends := by
  rw [emit]
  refine .bind (p.appends_takePitch text) ?_
  rintro ⟨q, pitch⟩
  exact .bind (.ofExcept _) fun _ ↦ .pure _

/-! ## One token

`step_value_of_sound` and `step_value_of_silent` are all that is used of `Playing.step` from here
on. -/

/-- Notes, chords and rests are played alike: the duration, the notes, and the clock. -/
theorem step_of_sound {t : Token} {s : Sound} (h : t.sound? = some s) (m : Meter) (i : Instrument)
    (p : Playing) :
    step m i p t = do
      let (p, seconds) ← p.takeDuration m s.code?
      let p ← s.pitches.foldlM (emit i seconds) p
      return p.advance seconds := by
  cases t <;> cases h
  case pitch text code? =>
    rw [step]
    refine congrArg _ (funext ?_)
    rintro ⟨p, seconds⟩
    dsimp only
    rw [List.foldlM_cons]
    simp only [List.foldlM_nil, bind_pure]
  case chord pitches code? => rfl
  case rest code? => rfl

/-- The staff behind a duration code. -/
def remember (p : Playing) (code? : Option String) : Playing :=
  { p with staff := p.staff.rememberDuration code? }

/-- How long a staff makes a sound with the given code last, in seconds. -/
def secondsOf (m : Meter) (p : Playing) (code? : Option String) : Float :=
  Duration.beats (p.staff.durationCode code?) * m.beat

/-- The notes of a sound are played one after the other, without the clock going on. -/
def emitAll (i : Instrument) (duration : Float) (p : Playing) (texts : List String) :
    Except Fault Playing :=
  texts.foldlM (fun p text ↦ (emit i duration p text).value) p

theorem step_value_of_sound {t : Token} {s : Sound} (h : t.sound? = some s) (m : Meter)
    (i : Instrument) (p : Playing) :
    (step m i p t).value =
      (emitAll i (p.secondsOf m s.code?) (p.remember s.code?) s.pitches).map
        (·.advance (p.secondsOf m s.code?)) := by
  rw [step_of_sound h, Noted.value_bind, takeDuration_value, ok_bind, Noted.value_bind,
    Noted.value_foldlM (appends_emit i _)]
  · rw [emitAll, secondsOf, remember]
    cases List.foldlM (m := Except Fault) _ _ s.pitches <;> rfl
  · exact fun _ ↦ .pure _
  · exact fun _ ↦ .bind (.foldlM (appends_emit i _) _ _) fun _ ↦ .pure _

/-- What a token does that takes no time. -/
def pass (m : Meter) (p : Playing) : Token → Playing
  | .barline =>
    { p with position := ⟨m.afterBarlines (p.position.barlines + 1), p.position.barlines + 1⟩ }
  | .grid code => { p with staff := p.staff.setGrid code }
  | _ => p

theorem step_value_of_silent {t : Token} (h : t.sound? = none) (m : Meter) (i : Instrument)
    (p : Playing) : (step m i p t).value = .ok (p.pass m t) := by
  cases t <;> cases h
  case grid code =>
    rw [step]
    split <;> rfl
  all_goals rfl

theorem appends_step (m : Meter) (i : Instrument) (p : Playing) (t : Token) :
    (step m i p t).Appends := by
  cases h : t.sound? with
  | some s =>
    rw [step_of_sound h]
    exact .bind (p.appends_takeDuration m _) fun _ ↦
      .bind (.foldlM (appends_emit i _) _ _) fun _ ↦ .pure _
  | none =>
    cases t with
    | grid code =>
      rw [step]
      split
      · exact .bind (.note _) fun _ ↦ .pure _
      · exact .pure _
    | unknown text => exact .bind (.note _) fun _ ↦ .pure _
    | barline => exact .pure _
    | marking text => exact .pure _
    | rest code? => cases h
    | pitch text code? => cases h
    | chord pitches code? => cases h

/-! ## A run of tokens -/

/-- A staff plays some tokens. -/
def play (m : Meter) (i : Instrument) (p : Playing) (ts : List Token) : Except Fault Playing :=
  ts.foldlM (fun p t ↦ (step m i p t).value) p

theorem foldlM_step_value (m : Meter) (i : Instrument) (p : Playing) (ts : List Token) :
    (ts.foldlM (step m i) p).value = play m i p ts :=
  Noted.value_foldlM (appends_step m i) ts p

@[simp] theorem play_nil (m : Meter) (i : Instrument) (p : Playing) : play m i p [] = .ok p := rfl

theorem play_append (m : Meter) (i : Instrument) (p : Playing) (ts us : List Token) :
    play m i p (ts ++ us) = play m i p ts >>= fun q ↦ play m i q us :=
  List.foldlM_append

/-! ## The notes before -/

/-- The same staff, with more notes before. -/
def behind (es : Array NoteEvent) (p : Playing) : Playing := { p with events := es ++ p.events }

theorem emit_behind (es : Array NoteEvent) (i : Instrument) (duration : Float) (p : Playing)
    (text : String) :
    (emit i duration (p.behind es) text).value =
      (emit i duration p text).value.map (behind es) := by
  rw [emit_value, emit_value, behind]
  rcases p.staff.takePitch text with f | ⟨st, pitch⟩
  · rfl
  · simp only [ok_bind]
    rcases (pitch.transpose i.transpose).name with f | name
    · rfl
    · rw [ok_bind, ok_bind, Array.push_append]
      rfl

theorem emitAll_behind (es : Array NoteEvent) (i : Instrument) (duration : Float) (p : Playing)
    (texts : List String) :
    emitAll i duration (p.behind es) texts = (emitAll i duration p texts).map (behind es) :=
  foldlM_map (f := fun p text ↦ (emit i duration p text).value) (emit_behind es i duration) texts p

theorem step_behind (es : Array NoteEvent) (m : Meter) (i : Instrument) (p : Playing) (t : Token) :
    (step m i (p.behind es) t).value = (step m i p t).value.map (behind es) := by
  cases h : t.sound? with
  | some s =>
    rw [step_value_of_sound h, step_value_of_sound h]
    have hseconds : (p.behind es).secondsOf m s.code? = p.secondsOf m s.code? := rfl
    have hremember : (p.behind es).remember s.code? = (p.remember s.code?).behind es := rfl
    rw [hseconds, hremember, emitAll_behind]
    cases emitAll i (p.secondsOf m s.code?) (p.remember s.code?) s.pitches <;> rfl
  | none =>
    rw [step_value_of_silent h, step_value_of_silent h]
    cases t <;> rfl

/-- The notes played before do not matter to a staff. -/
theorem play_behind (es : Array NoteEvent) (m : Meter) (i : Instrument) (p : Playing)
    (ts : List Token) : play m i (p.behind es) ts = (play m i p ts).map (behind es) :=
  foldlM_map (step_behind es m i) ts p

/-! ## Signatures -/

/-- The note bears the id and the name of an instrument. -/
def Signed (i : Instrument) (n : NoteEvent) : Prop :=
  n.instrumentId = i.id ∧ n.instrumentName = i.displayName

theorem emit_signed {i : Instrument} {duration : Float} {p q : Playing} {text : String}
    (hp : ∀ n ∈ p.events, Signed i n) (h : (emit i duration p text).value = .ok q) :
    ∀ n ∈ q.events, Signed i n := by
  rw [emit_value] at h
  obtain ⟨⟨st, pitch⟩, -, h⟩ := bind_eq_ok h
  obtain ⟨name, -, h⟩ := bind_eq_ok h
  cases h
  intro n hn
  rcases Array.mem_push.mp hn with hn | rfl
  · exact hp n hn
  · exact ⟨rfl, rfl⟩

theorem step_signed {m : Meter} {i : Instrument} {p q : Playing} {t : Token}
    (hp : ∀ n ∈ p.events, Signed i n) (h : (step m i p t).value = .ok q) :
    ∀ n ∈ q.events, Signed i n := by
  cases hs : t.sound? with
  | some s =>
    rw [step_value_of_sound hs] at h
    obtain ⟨r, hr, rfl⟩ := map_eq_ok h
    exact foldlM_invariant (P := fun _ r ↦ ∀ n ∈ r.events, Signed i n)
      (fun _ _ _ _ hp h ↦ emit_signed hp h) hp hr
  | none =>
    rw [step_value_of_silent hs] at h
    cases h
    cases t <;> exact hp

/-- Every note bears the id and the name of its instrument. -/
theorem play_signed {m : Meter} {i : Instrument} {p q : Playing} {ts : List Token}
    (hp : ∀ n ∈ p.events, Signed i n) (h : play m i p ts = .ok q) : ∀ n ∈ q.events, Signed i n :=
  foldlM_invariant (P := fun _ r ↦ ∀ n ∈ r.events, Signed i n)
    (fun _ _ _ _ hp h ↦ step_signed hp h) hp h

/-- What a staff plays is new notes, with the name of the instrument, behind those before. -/
theorem play_new {m : Meter} {i : Instrument} {st : Staff} {position : Position}
    {es : Array NoteEvent} {ts : List Token} {q : Playing}
    (h : play m i ⟨st, position, es⟩ ts = .ok q) :
    ∃ r, play m i ⟨st, position, #[]⟩ ts = .ok r ∧ q = r.behind es ∧
      ∀ n ∈ r.events, Signed i n := by
  have hbehind := play_behind es m i ⟨st, position, #[]⟩ ts
  rw [behind, Array.append_empty, h] at hbehind
  obtain ⟨r, hr, hq⟩ := map_eq_ok hbehind.symm
  exact ⟨r, hr, hq.symm, play_signed (fun n hn ↦ absurd hn (Array.not_mem_empty n)) hr⟩

end Playing

end TextScore
