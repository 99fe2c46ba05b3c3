/-!
# Faults and computations that take notes

Two things can go wrong when a score is compiled, and they are kept apart.

Malformed score text never stops anything: the compiler says what it found, guesses or leaves
something out, and goes on.  That is a *note*.  What stops a computation is a *fault*: a number
beyond what can be read, written or held, or a result built by hand that names unknown things or
holds values for which an output format has no room.

A computation of type `Noted ν α` has a fault or a value of type `α`, and in both cases the notes of
type `ν` that it took on the way.  Notes that were taken before a fault are not lost, since a log
shows them although the run fails.  Nothing that a computation does depends on notes taken before;
that this is so for every stage of the compiler is proved where the stages are, see
`Noted.Appends`.

* `Fault` — the causes of a computation without result.
* `Noted` — a computation that may fail and takes notes.
* `note`, `fail` — take one note; stop with a fault.
* `Noted.outcome` — the value or the fault, and the notes.
* `Noted.mapNotes` — the same computation with its notes seen from outside, as a problem on a staff
  line becomes a problem at a line number.

Faults carry what a message about them needs and nothing else; the messages are in
`TextScore.Fault.Message`, since some of them show numbers and numbers can have faults.
-/

namespace TextScore

/-! ## Faults

There is one constructor for each cause, so that a statement about a stage can say exactly which
causes it has. -/

/-- The cause of a computation that has no result. -/
inductive Fault
  /-- An integer with more digits than are read or written. -/
  | numeralTooLong
  /-- An integer too large for a double. -/
  | integerTooLarge
  /-- A division by zero. -/
  | divisionByZero
  /-- An infinite double where an integer is needed. -/
  | infiniteNumber
  /-- A double that is no number where an integer is needed. -/
  | notANumber
  /-- A text repeated more often than a length can say. -/
  | lengthTooLarge
  /-- A text too long to be held. -/
  | outOfMemory
  /-- An instrument that nobody declared or used. -/
  | unknownInstrument (id : String)
  /-- A note name that is none. -/
  | malformedNoteName (name : String)
  /-- A text with a character that a MIDI text has no byte for. -/
  | unencodableText (text : String)
  /-- A number that does not fit its field in a MIDI file. -/
  | fieldTooSmall
  /-- A path with the null character, which no path has. -/
  | unusablePath (path : String)
  /-- A default tempo that is not positive. -/
  | defaultTempoNotPositive (tempo : Float)
  /-- A default time signature with a part that is not positive. -/
  | invalidDefaultTimeSignature (numerator denominator : Int)
  /-- A default duration that is not in the table of durations. -/
  | unknownDefaultDuration (code : String)
  /-- A playback tempo that is not positive. -/
  | playbackTempoNotPositive (tempo : Float)
  /-- A velocity outside 0 to 127. -/
  | velocityOutOfRange (velocity : Int)
  deriving Repr

/-! ## Computations that take notes

The notes stand in an array, the last one behind. -/

/-- A computation that may fail and takes notes of type `ν`, kept when it fails. -/
abbrev Noted (ν : Type) := EStateM Fault (Array ν)

variable {ν μ α : Type}

/-- Takes a note. -/
def note (n : ν) : Noted ν Unit := modify (·.push n)

/-- Stops. -/
def fail (f : Fault) : Noted ν α := throw f

namespace Noted

/-- The value or the fault, and the notes taken. -/
def outcome (x : Noted ν α) : Except Fault α × Array ν :=
  match x.run #[] with
  | .ok a ns => (.ok a, ns)
  | .error f ns => (.error f, ns)

/-- A computation without notes. -/
def ofExcept : Except Fault α → Noted ν α
  | .ok a => pure a
  | .error f => fail f

/-- The same computation, its notes changed one by one. -/
def mapNotes (g : ν → μ) (x : Noted ν α) : Noted μ α := fun ns ↦
  match x.run #[] with
  | .ok a ms => .ok a (ns ++ ms.map g)
  | .error f ms => .error f (ns ++ ms.map g)

end Noted

end TextScore
