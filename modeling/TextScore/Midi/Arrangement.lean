import TextScore.Midi.File
import TextScore.Number.Double
import TextScore.Score.Basic

/-!
# Arranging a score for MIDI

Every instrument gets a track: first those of the layout, in its order, then those that only occur
in notes, in the order of their first note.

The times of a score are seconds, the times of a MIDI file are ticks at a tempo.  A file has one
tempo, the one it is asked for, and all seconds become ticks at it; so the file lasts as long as the
score whatever tempi the score had, and a different playback tempo changes the ticks and, but for
rounding, not the sound.  Start and length of a note are turned into ticks separately, each toward
zero.  The end of a note is the sum of the two, and it may differ by a tick from where the next note
starts; what this does to notes that follow each other is in `TextScore.Proofs.Midi.Ticks`.

* `Playback` — the tempo and the velocity of a file.
* `Arrangement.ofScore` — the tracks and their notes; notes outside the MIDI range are skipped and
  counted.
* `Arrangement.warning?` — what is said about the skipped notes.
* `Arrangement.fileBytes` — the file.

An arrangement is made before any byte is written, and it fails if a name has no MIDI text, a pitch
no number, a time no tick, or the tempo no number of microseconds.  That a number is too large for
its field shows only when the bytes are made.
-/

namespace TextScore.Midi

open Number

/-- How a score is played back. -/
structure Playback where
  /-- Quarter notes per minute. -/
  tempo : Float := 120
  /-- The velocity of every note. -/
  velocity : Int := 80

/-- The values, if a file can hold them: the tempo first, then the velocity. -/
def Playback.check (p : Playback) : Except Fault Playback :=
  if p.tempo ≤ 0 then .error (.playbackTempoNotPositive p.tempo)
  else if 0 ≤ p.velocity ∧ p.velocity ≤ 127 then .ok p
  else .error (.velocityOutOfRange p.velocity)

/-- The ticks in a number of seconds, toward zero. -/
def Playback.ticks (p : Playback) (seconds : Float) : Except Fault Int :=
  truncate (seconds * (p.tempo / 60) * Float.ofNat division)

/-- The microseconds in a quarter note, toward zero. -/
def Playback.microseconds (p : Playback) : Except Fault Int := truncate (60000000 / p.tempo)

/-- A note on a track. -/
structure Note where
  /-- The MIDI number. -/
  pitch : Nat
  /-- The tick of its start. -/
  tick : Int
  /-- Its length in ticks. -/
  ticks : Int
  /-- The velocity. -/
  velocity : Nat
  deriving DecidableEq, Repr

/-- The track of an instrument. -/
structure Track where
  /-- The id of the instrument. -/
  id : String
  /-- The name of the track. -/
  name : String
  /-- The channel. -/
  channel : Nat
  /-- The bytes of the name. -/
  nameBytes : List UInt8
  /-- The notes in the order of the score. -/
  notes : List Note
  deriving DecidableEq, Repr

/-- A score laid out for a file. -/
structure Arrangement where
  /-- The microseconds in a quarter note. -/
  microseconds : Int
  /-- The title and the composer. -/
  texts : List (List UInt8)
  /-- The tracks, in order. -/
  tracks : List Track
  /-- How many notes are outside the MIDI range. -/
  skipped : Nat
  deriving DecidableEq, Repr

/-- The channel of a track, counted from zero.  Channel 9 is for percussion and is left out. -/
def channelOf (index : Nat) : Nat :=
  let channel := index % 15
  if 9 ≤ channel then channel + 1 else channel

/-- Rows with one more, unless its id is there already. -/
def addRow (rows : List Row) (r : Row) : List Row :=
  if rows.any fun s ↦ s.id == r.id then rows else rows ++ [r]

/-- The instruments of the tracks, in order. -/
def trackRows (s : Score) : List Row :=
  let declared := (s.groups.flatMap (·.rows)).foldl addRow []
  (s.events.map fun e ↦ ⟨e.instrumentId, e.instrumentName⟩).foldl addRow declared

/-- A note of the score with the id of its instrument, unless it is outside the MIDI range. -/
def noteOf (p : Playback) (e : NoteEvent) : Except Fault (Option (String × Note)) := do
  let pitch ← e.midiNote
  if 0 ≤ pitch ∧ pitch ≤ 127 then
    let tick ← p.ticks e.start
    let ticks ← p.ticks e.duration
    return some (e.instrumentId, ⟨pitch.toNat, tick, ticks, p.velocity.toNat⟩)
  else return none

namespace Arrangement

/-- The texts of the first track: title and composer, unless they are empty. -/
def textsOf (s : Score) : List String :=
  [s.title?, s.composer?].filterMap fun t? ↦ t?.filter (· ≠ "")

/-- Arranges a score. -/
def ofScore (p : Playback) (s : Score) : Except Fault Arrangement := do
  let microseconds ← p.microseconds
  let texts ← (textsOf s).mapM latin1
  let named ← (trackRows s).mapM fun r ↦ do return (r, ← latin1 r.name)
  let notes ← s.events.mapM (noteOf p)
  let played := notes.filterMap id
  let track (index : Nat) (r : Row) (nameBytes : List UInt8) : Track :=
    ⟨r.id, r.name, channelOf index, nameBytes,
      (played.filter fun n ↦ n.1 == r.id).map Prod.snd⟩
  return {
    microseconds, texts
    tracks := named.mapIdx fun index r ↦ track index r.1 r.2
    skipped := notes.length - played.length }

end Arrangement

/-- The start and the end of a note. -/
def Note.events (channel : Nat) (n : Note) : List Event :=
  [⟨n.tick, .noteOn channel n.pitch n.velocity⟩,
    ⟨n.tick + n.ticks, .noteOff channel n.pitch n.velocity⟩]

/-- The events of a track: its name, then its notes. -/
def Track.events (t : Track) : List Event :=
  ⟨0, .trackName t.nameBytes⟩ :: t.notes.flatMap (Note.events t.channel)

namespace Arrangement

/-- The events of all tracks: the tempo, the texts, and a track for each instrument. -/
def events (a : Arrangement) : List (List Event) :=
  [⟨0, .tempo a.microseconds⟩] :: (a.texts.map fun t ↦ ⟨0, .text t⟩) :: a.tracks.map Track.events

/-- What is said about skipped notes. -/
def warning? (a : Arrangement) : Option String :=
  if a.skipped = 0 then none
  else some ("skipped " ++ Problem.number a.skipped ++ " note(s) outside the MIDI range")

/-- The bytes of the file. -/
def fileBytes (a : Arrangement) : Except Fault (List UInt8) := Midi.fileBytes a.events

end Arrangement

end TextScore.Midi
