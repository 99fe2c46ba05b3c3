import TextScore.Fault
import TextScore.Pitch

/-!
# Durations, staves and defaults

Notes may leave out their duration and their octave, and then the staff supplies them.  What it
supplies comes from the last note that did say something, from the grid of the staff, or from the
defaults of the score; this module has all three.

* `Duration.beats?`, `Duration.beats` — the table of duration codes, without and with the fallback.
* `Staff` — the last duration code, the last octave, and the grid if there is one.
* `Staff.durationCode` — the code of a note or rest.
* `Staff.rememberDuration` — what the staff remembers of it.
* `Staff.resolvePitch` — the pitch of a note, and what the staff remembers then.
* `Defaults`, `Defaults.check` — what holds until a score says otherwise, and what is admitted.

A staff is never reset by a line or a block.  Only a declaration of its instrument starts a new one,
so what a note means can depend on a note many blocks before it.
-/

namespace TextScore.Duration

/-! ## Duration codes

A duration code names a note value by its denominator, with a point for half as much again.  The
table is all there is: a code that looks like one but is not in it, such as `:64`, counts as a
quarter note, and the stage that reads it reports so. -/

/-- The codes and their lengths in quarter-note beats. -/
def table : List (String × Float) := [
  ("0.25", 16), ("0.5", 8), ("1", 4), ("2", 2), ("4", 1), ("8", 0.5), ("16", 0.25), ("32", 0.125),
  ("0.25.", 24), ("0.5.", 12), ("1.", 6), ("2.", 3), ("4.", 1.5), ("8.", 0.75), ("16.", 0.375),
  ("32.", 0.1875)]

/-- The length of a code in the table. -/
def beats? (code : String) : Option Float := table.lookup code

/-- The code is in the table. -/
def isKnown (code : String) : Bool := (beats? code).isSome

/-- The length of a code; an unknown one counts as a quarter note. -/
def beats (code : String) : Float := (beats? code).getD 1

end TextScore.Duration

namespace TextScore

open Text Number

/-! ## What a staff remembers

The code of a note is, in this order, its own, the grid of the staff, or the last one written on the
staff.  A grid hides the last code and does not change it: a code written while there is a grid is
used and not remembered.  The octave has no such detour, and a note remembers the one it was written
with. -/

/-- What carries over from note to note on one staff. -/
structure Staff where
  /-- The last code written without a grid. -/
  lastDuration : String
  /-- The last octave written. -/
  lastOctave : Int
  /-- The code for notes without one. -/
  grid? : Option String
  deriving DecidableEq, Repr

namespace Staff

/-- The staff with a grid. -/
def setGrid (st : Staff) (code : String) : Staff := { st with grid? := some code }

/-- The code of a note, chord or rest. -/
def durationCode (st : Staff) (written? : Option String) : String :=
  written?.getD (st.grid?.getD st.lastDuration)

/-- What the staff remembers of a note, chord or rest: its code, unless there is a grid. -/
def rememberDuration (st : Staff) (written? : Option String) : Staff :=
  match written?, st.grid? with
  | some code, none => { st with lastDuration := code }
  | _, _ => st

/-- The pitch of a note, if it starts with a pitch letter, and the staff with its octave. -/
def resolvePitch (st : Staff) (text : List Char) : Except Fault (Staff × Option Pitch) :=
  match Pitch.Spelling.read? text with
  | none => .ok (st, none)
  | some p => do
    let octave ←
      match p.octave? with
      | some numeral => readInt numeral
      | none => .ok st.lastOctave
    return ({ st with lastOctave := octave },
      some (.ofSemitone (octave * 12 + p.letter + p.shift)))

end Staff

/-! ## Defaults

Only sensible values are admitted: a tempo that is not zero or below, a time signature of positive
numbers, and a duration code from the table, tested in that order.  A tempo that is not a number is
not zero or below, and so it passes. -/

/-- A time signature: so many beats of such a value in a measure. -/
structure TimeSignature where
  /-- How many beats. -/
  numerator : Int
  /-- The value of a beat, as a denominator. -/
  denominator : Int
  deriving DecidableEq, Repr

/-- What holds until a score says otherwise. -/
structure Defaults where
  /-- Quarter notes per minute. -/
  tempo : Float := 120
  /-- The time signature. -/
  timeSignature : TimeSignature := ⟨4, 4⟩
  /-- The octave of a note that names none. -/
  octave : Int := 4
  /-- The duration code of a note that names none. -/
  duration : String := "4"
  /-- The group of instruments declared outside every group. -/
  groupName : String := "Ungrouped"

namespace Defaults

/-- The values, if they make sense. -/
def check (d : Defaults) : Except Fault Defaults :=
  if d.tempo ≤ 0 then .error (.defaultTempoNotPositive d.tempo)
  else if d.timeSignature.numerator ≤ 0 ∨ d.timeSignature.denominator ≤ 0 then
    .error (.invalidDefaultTimeSignature d.timeSignature.numerator d.timeSignature.denominator)
  else if Duration.isKnown d.duration then .ok d
  else .error (.unknownDefaultDuration d.duration)

/-- The values with another tempo. -/
def withTempo (d : Defaults) : Option Float → Except Fault Defaults
  | none => .ok d
  | some tempo => { d with tempo := tempo }.check

/-- A staff on which nothing is written yet. -/
def newStaff (d : Defaults) : Staff := ⟨d.duration, d.octave, none⟩

end Defaults

end TextScore
