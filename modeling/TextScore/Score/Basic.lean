import TextScore.Ensemble.Basic
import TextScore.Journal
import TextScore.Pitch

/-!
# Compiled scores

What compiling a score produces: timed notes, the layout of the ensemble, and what the writer of the
score should know.

* `NoteEvent` — one note with its start and its duration in seconds.
* `Row`, `GroupLayout` — the layout.
* `Score` — everything.

This is the one type that the outputs share.  A listing, JSON and a MIDI file are each made of a
`Score` and know nothing of the text it came from, so they can be asked about any score, built by
hand or compiled, and some of what they refuse cannot come from a text.
-/

namespace TextScore

/-- A note at a time. -/
structure NoteEvent where
  /-- The sounding pitch by name. -/
  pitch : String
  /-- When it starts, in seconds. -/
  start : Float
  /-- How long it lasts, in seconds. -/
  duration : Float
  /-- The instrument that plays it. -/
  instrumentId : String
  /-- The name under which that instrument is shown. -/
  instrumentName : String

namespace NoteEvent

/-- When the note ends, in seconds. -/
def endTime (e : NoteEvent) : Float := e.start + e.duration

/-- The MIDI number of the pitch. -/
def midiNote (e : NoteEvent) : Except Fault Int := midiNumber e.pitch

/-- The order of time: `a` does not start after `b`.  Of a start that is no number every other one
is neither before nor after, so among such notes this is no order, and how a sort by it leaves them
depends on the way of sorting. -/
def notAfter (a b : NoteEvent) : Bool := !(b.start < a.start)

end NoteEvent

/-- An instrument in a layout. -/
structure Row where
  /-- The id of the instrument. -/
  id : String
  /-- The name that is shown. -/
  name : String
  deriving DecidableEq, Repr

/-- A group in a layout. -/
structure GroupLayout where
  /-- The name of the group. -/
  name : String
  /-- Its instruments, in order. -/
  rows : List Row
  deriving DecidableEq, Repr

/-- A compiled score. -/
structure Score where
  /-- The notes in the order of their starts. -/
  events : List NoteEvent := []
  /-- The groups of the ensemble. -/
  groups : List GroupLayout := []
  /-- When the last note ends, in seconds. -/
  totalDuration : Float := 0
  /-- The title. -/
  title? : Option String := none
  /-- The composer. -/
  composer? : Option String := none
  /-- What the writer of the score should know. -/
  diagnostics : List Diagnostic := []
  /-- The instruments, declared and made up. -/
  instruments : List Instrument := []

namespace Score

/-- There is something to play. -/
def hasPlayableNotes (s : Score) : Bool := !s.events.isEmpty

/-- The diagnostics that are warnings. -/
def warnings (s : Score) : List Diagnostic := s.diagnostics.filter (·.severity == .warning)

/-- When the last of the notes ends; nothing ends at zero. -/
def lastEnd : List NoteEvent → Float
  | [] => 0
  | e :: es => es.foldl (fun latest e ↦ if e.endTime > latest then e.endTime else latest) e.endTime

end Score

end TextScore
