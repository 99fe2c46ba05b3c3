import TextScore.Json.Basic
import TextScore.Score.Basic

/-!
# Scores as JSON

What a timeline or a keyboard view needs of a score: metadata, structure, events with MIDI numbers,
diagnostics, and the full definitions of the instruments.

* `Score.payload` — the JSON value.
* `Score.toJson` — its text.

Every field is there in every payload, with `null` for what a score does not have, so that a reader
needs no cases.  Only two things can go wrong: a note whose pitch is no note name, and an integer
too long to be read or written.
-/

namespace TextScore

namespace Json

/-- The fields of a note, without its MIDI number. -/
def noteFields (e : NoteEvent) : List (String × Json) := [
  ("pitch", ofString e.pitch),
  ("start_time", double e.start),
  ("duration", double e.duration),
  ("instrument_id", ofString e.instrumentId),
  ("instrument_name", ofString e.instrumentName)]

/-- A note with its MIDI number. -/
def ofNote (e : NoteEvent) : Except Fault Json := do
  let n ← ofInt (← e.midiNote)
  return obj (noteFields e ++ [("midi_note", n)])

/-- A row of a group. -/
def ofRow (r : Row) : Json := obj [("id", ofString r.id), ("name", ofString r.name)]

/-- A group. -/
def ofGroup (g : GroupLayout) : Json :=
  obj [("name", ofString g.name), ("instruments", arr (g.rows.map ofRow))]

/-- A diagnostic. -/
def ofDiagnostic (d : Diagnostic) : Except Fault Json := do
  let line ← ofInt d.line
  return obj [
    ("message", ofString d.message), ("line_number", line),
    ("severity", ofString d.severity.label)]

/-- The definition of an instrument. -/
def ofInstrument (i : Instrument) : Except Fault Json := do
  let transpose ← ofInt i.transpose
  return obj [
    ("id", ofString i.id), ("display_name", ofString i.displayName),
    ("transpose_semitones", transpose), ("clef", ofString? i.clef?),
    ("group_tag", ofString? i.groupTag?), ("visibility_tag", ofString? i.visibilityTag?)]

end Json

namespace Score

/-- The title and the composer. -/
def metadata (s : Score) : Json :=
  .obj [("title", .ofString? s.title?), ("composer", .ofString? s.composer?)]

/-- The groups and the length of the score. -/
def structureJson (s : Score) : Json :=
  .obj [("groups", .arr (s.groups.map Json.ofGroup)), ("total_duration", .double s.totalDuration)]

/-- The score as a JSON value. -/
def payload (s : Score) : Except Fault Json := do
  let events ← s.events.mapM Json.ofNote
  let diagnostics ← s.diagnostics.mapM Json.ofDiagnostic
  let instruments ← s.instruments.mapM Json.ofInstrument
  return .obj [
    ("metadata", s.metadata), ("structure", s.structureJson), ("events", .arr events),
    ("diagnostics", .arr diagnostics), ("instruments", .arr instruments)]

/-- The score as JSON text. -/
def toJson (indent? : Option Nat) (s : Score) : Except Fault String := do
  return String.ofList ((← s.payload).render ⟨indent?⟩ 0)

end Score

end TextScore
