import TextScore.Ensemble.Collect
import TextScore.Macro
import TextScore.Measure.Segment
import TextScore.Timeline

/-!
# Compiling a score

The text loses its comments and its fragment definitions; its lines are read for the ensemble and
for the body; the blocks of the body are played; the notes are put in the order of time.

* `Draft.prepare` — the lines of a text and its fragments.
* `Draft.ofText` — the notes, the ensemble and the body.
* `Score.ofText` — the whole compilation, with its journal.

The lines are read twice, for the ensemble and for the body, and the second reading does not see
what the first one made of a line.  So all declarations are known before the first note is played,
and the order of the journal is that of the stages and not of the lines.

A draft is what is known before the journal is read.  The diagnostics of a score come from the
journal of the very compilation that makes it, and the number of them stands in its last entry, so
the score is made of both at the end.
-/

namespace TextScore

open Text

/-- What compiling yields before its journal is read. -/
structure Draft where
  /-- The notes in the order of their starts. -/
  events : List NoteEvent
  /-- The ensemble, with the instruments made up on the way. -/
  ensemble : Ensemble
  /-- The groups of the ensemble. -/
  groups : List GroupLayout
  /-- The blocks and the names of the score. -/
  body : Body

namespace Draft

/-- The rows of a group. -/
def layout (e : Ensemble) (g : Group) : Except Fault GroupLayout := do
  let rows ← g.members.mapM fun id ↦
    match e.instruments.get? id with
    | some i => .ok (⟨id, i.displayName⟩ : Row)
    | none => .error (.unknownInstrument id)
  return ⟨g.name, rows⟩

/-- Notes the definitions of fragments. -/
def noteMacros (text : List Char) : Pass Unit :=
  (Macro.Table.definitions text).forM fun d ↦
    note (.macroDefined (String.ofList d.name) (String.ofList d.fragment))

/-- The lines of a text without comments and definitions, and the fragments. -/
def prepare (text : List Char) : List (Nat × List Char) × Macro.Table :=
  let (source, macros) := Macro.Table.collect ∅ (Comment.strip text)
  (numbered source, macros)

/-- Puts the notes of a timeline in the order of time. -/
def ofTimeline (body : Body) (t : Timeline) : Pass Draft := do
  let events := t.assembly.events.toList.mergeSort NoteEvent.notAfter
  if events.isEmpty then report 0 .noPlayableNotes
  let ensemble := t.assembly.ensemble
  let groups ← Noted.ofExcept (ensemble.groups.mapM (layout ensemble))
  return { events, ensemble, groups, body }

/-- Compiles a text. -/
def ofText (defaults : Defaults) (text : List Char) : Pass Draft := do
  noteMacros (Comment.strip text)
  let (ls, macros) := prepare text
  let ensemble ← Ensemble.collect defaults ls
  let body ← Body.segment defaults ls
  ofTimeline body (← Timeline.ofBlocks macros ensemble body.blocks)

/-- The score, with the diagnostics of the journal. -/
def score (d : Draft) (j : Journal) : Score where
  events := d.events
  groups := d.groups
  totalDuration := Score.lastEnd d.events
  title? := d.body.title?
  composer? := d.body.composer?
  diagnostics := j.diagnostics.toList
  instruments := d.ensemble.instruments.values

/-- The last entry of the journal of a compilation. -/
def summary (d : Draft) (s : Score) : Entry :=
  .compiled s.events.length d.body.blocks.length s.totalDuration s.diagnostics.length

end Draft

/-- Compiles a text: the score, or why there is none, and the journal. -/
def Score.ofText (defaults : Defaults) (text : String) : Except Fault Score × Journal :=
  match (Draft.ofText defaults text.toList).outcome with
  | (.ok d, j) =>
    let s := d.score j
    (.ok s, j.push (d.summary s))
  | (.error f, j) => (.error f, j)

end TextScore
