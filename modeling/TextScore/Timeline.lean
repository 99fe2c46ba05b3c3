import TextScore.Fault
import TextScore.Journal
import TextScore.Macro
import TextScore.Measure.Directive
import TextScore.Measure.Segment
import TextScore.Repeat
import TextScore.Score.Basic
import TextScore.Token

/-!
# The timeline

The blocks of a score are played one after the other, and what comes out are notes with times.

Three kinds of state have three lifetimes here, and keeping them apart is most of what there is to
say.  What a staff remembers, its last duration, its last octave and its grid, lives in the ensemble
and is never reset.  Where a staff stands, its clock and its barlines, lives as long as the block:
every staff starts a block at the block's start, whatever it did in the block before.  Where the
block starts depends on the blocks before it alone: a block takes its measures' time, whatever its
staves did, so a staff that plays too much or too little does not shift what follows.

Within a block the lines are played in the order of the text and, on a line for several instruments,
one instrument after the other.  So the notes of the staves are interleaved in the order of the text
and not of time; they are sorted when the score is made, and not here.

* `Meter` — where a block starts and how fast it goes.
* `Playing` — where a staff stands, and the notes so far.
* `Playing.step` — one token more.
* `Assembly` — the ensemble, the notes so far and where the staves of the block stand.
* `Assembly.playLine` — one staff line more.
* `Timeline.ofBlocks` — the notes of all blocks.

The functions nest as the data does, a fold over tokens in a fold over staves in a fold over lines
in a fold over blocks, and the proofs about runs follow that nesting: what a token preserves, a
staff, a line, a block and a score preserve.
-/

namespace TextScore

open Number

/-! ## Playing a staff

A staff has a clock that starts with its block.  Notes, chords and rests move the clock on; a
barline sets it to the start of the next measure, counted from the start of the block, wherever the
clock stood.  Nothing is rounded or carried over between measures. -/

/-- Where a block starts and how long its beats and measures last, in seconds. -/
structure Meter where
  /-- The start of the block. -/
  start : Float
  /-- The length of a quarter note. -/
  beat : Float
  /-- The length of a measure. -/
  measure : Float

/-- The meter of a block that starts at a time. -/
def Block.meter (b : Block) (start : Float) : Except Fault Meter := do
  let beat ← b.beatSeconds
  let beats ← b.measureBeats
  return ⟨start, beat, beats * beat⟩

/-- The start of the measure after some barlines. -/
def Meter.afterBarlines (m : Meter) (barlines : Nat) : Float :=
  m.start + Float.ofNat barlines * m.measure

/-- Where a staff stands in its block. -/
structure Position where
  /-- The time of the next note, in seconds. -/
  clock : Float
  /-- How many barlines there were. -/
  barlines : Nat

/-- Where a staff stands, and the notes so far. -/
structure Playing where
  /-- What the staff remembers. -/
  staff : Staff
  /-- Where it stands. -/
  position : Position
  /-- The notes so far. -/
  events : Array NoteEvent

namespace Playing

/-- The clock goes on. -/
def advance (p : Playing) (seconds : Float) : Playing :=
  { p with position := { p.position with clock := p.position.clock + seconds } }

/-- How long a note, chord or rest lasts, in seconds. -/
def takeDuration (m : Meter) (p : Playing) (written? : Option String) :
    Noted Problem (Playing × Float) := do
  let code := p.staff.durationCode written?
  if !Duration.isKnown code then note (.unknownDuration code)
  return ({ p with staff := p.staff.rememberDuration written? }, Duration.beats code * m.beat)

/-- The pitch of a note.  One that starts with no pitch letter is reported and counts as a C. -/
def takePitch (p : Playing) (text : String) : Noted Problem (Playing × Pitch) := do
  let (staff, pitch?) ←
    Noted.ofExcept (p.staff.resolvePitch (Pitch.stripArticulation text.toList))
  let p := { p with staff := staff }
  match pitch? with
  | some pitch => return (p, pitch)
  | none =>
    if !isWritable staff.lastOctave then fail .numeralTooLong
    note (.unrecognisedPitch text staff.lastOctave)
    return (p, .firstOf staff.lastOctave)

/-- A note sounds, at the clock. -/
def emit (i : Instrument) (duration : Float) (p : Playing) (text : String) :
    Noted Problem Playing := do
  let (p, pitch) ← p.takePitch text
  let name ← Noted.ofExcept (pitch.transpose i.transpose).name
  return { p with events := p.events.push ⟨name, p.position.clock, duration, i.id, i.displayName⟩ }

/-- One token more. -/
def step (m : Meter) (i : Instrument) (p : Playing) : Token → Noted Problem Playing
  | .barline =>
    let barlines := p.position.barlines + 1
    return { p with position := ⟨m.afterBarlines barlines, barlines⟩ }
  | .grid code => do
    if !Duration.isKnown code then note (.unknownGrid code)
    return { p with staff := p.staff.setGrid code }
  | .rest written? => do
    let (p, seconds) ← p.takeDuration m written?
    return p.advance seconds
  | .pitch text written? => do
    let (p, seconds) ← p.takeDuration m written?
    let p ← p.emit i seconds text
    return p.advance seconds
  | .chord pitches written? => do
    let (p, seconds) ← p.takeDuration m written?
    let p ← pitches.foldlM (emit i seconds) p
    return p.advance seconds
  | .marking _ => pure p
  | .unknown text => do
    note (.ignoredToken text)
    return p

end Playing

/-! ## Assembling the timeline

An instrument that nobody declared is made up when a staff line first names it, and that is reported
at the line.  The tokens of a line are made once and played by each of its instruments, so what is
wrong with the text is reported once and what is wrong with a note as often as it is played. -/

/-- The ensemble, the notes so far, and where the staves of a block stand. -/
structure Assembly where
  /-- The instruments and what their staves remember. -/
  ensemble : Ensemble
  /-- The notes so far. -/
  events : Array NoteEvent := #[]
  /-- Where the staves stand that played in this block. -/
  positions : OrderedMap Position := ∅

namespace Assembly

/-- One instrument plays tokens in a block. -/
def playStaff (line : Nat) (b : Block) (start : Float) (tokens : List Token) (a : Assembly)
    (id : String) : Pass Assembly := do
  let (i, ensemble, undeclared) := a.ensemble.resolve id
  if undeclared then report line (.undeclaredInstrument id)
  let staff ← Noted.ofExcept (ensemble.staff id)
  let meter ← Noted.ofExcept (b.meter start)
  let position := (a.positions.get? id).getD ⟨start, 0⟩
  let p ← atLine line (tokens.foldlM (Playing.step meter i) ⟨staff, position, a.events⟩)
  return {
    ensemble := ensemble.setStaff id p.staff
    events := p.events
    positions := a.positions.put id p.position }

/-- The tokens of a staff line, with its fragments put in and its repeats written out. -/
def tokens (macros : Macro.Table) (line : Nat) (content : List Char) : Pass (List Token) := do
  let text ← macros.expandFor (some (report line)) content
  let text ← atLine line (Repeat.expand text)
  return tokenize text

theorem tokens_eq (macros : Macro.Table) (line : Nat) (content : List Char) :
    tokens macros line content = do
      (macros.expand content).2.forM (report line)
      let text ← atLine line (Repeat.expand (macros.expand content).1)
      return tokenize text := by
  simp only [tokens, Macro.Table.expandFor, bind_assoc, pure_bind]

/-- One staff line more: its instruments play the same tokens, in order. -/
def playLine (macros : Macro.Table) (b : Block) (start : Float) (a : Assembly)
    (l : Nat × List Char) : Pass Assembly :=
  match Assignment.read? l.2 with
  | none => pure a
  | some s => do
    let tokens ← tokens macros l.1 s.content
    (s.ids.map String.ofList).foldlM (playStaff l.1 b start tokens) a

/-- A block is played from its start. -/
def playBlock (macros : Macro.Table) (a : Assembly) (b : Block) (start : Float) : Pass Assembly :=
  b.lines.foldlM (playLine macros b start) { a with positions := ∅ }

end Assembly

/-- The notes so far and where the next block starts. -/
structure Timeline where
  /-- The ensemble and the notes so far. -/
  assembly : Assembly
  /-- The quarter-note beats so far. -/
  beatOffset : Float := 0
  /-- The seconds so far. -/
  secondsOffset : Float := 0

namespace Timeline

/-- One block more. -/
def addBlock (macros : Macro.Table) (t : Timeline) (b : Block) : Pass Timeline := do
  let assembly ← t.assembly.playBlock macros b t.secondsOffset
  let beats ← Noted.ofExcept b.beats
  let beat ← Noted.ofExcept b.beatSeconds
  let t : Timeline := ⟨assembly, t.beatOffset + beats, t.secondsOffset + beats * beat⟩
  note (.blockPlayed b.first b.last beats b.tempo t.beatOffset t.secondsOffset)
  return t

/-- All blocks, one after the other. -/
def ofBlocks (macros : Macro.Table) (ensemble : Ensemble) (bs : List Block) : Pass Timeline :=
  bs.foldlM (addBlock macros) { assembly := { ensemble } }

end Timeline

end TextScore
