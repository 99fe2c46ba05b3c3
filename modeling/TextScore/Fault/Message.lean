import TextScore.Number.Layout

/-!
# What is said about a fault

The settings of a compilation and of a MIDI file are checked before anything else, and what is wrong
with one is said in a sentence that names the setting and shows its value.  All other faults come
from the numbers of a score or from a file, and each cause has a sentence of its own.

* `Fault.settingMessage?` — what is wrong with a setting; other faults are not about settings.
* `Fault.message` — a sentence for every fault.

A double is shown with the fewest digits that read back as the same double, so that a tempo is shown
as it was written.  An integer is shown only if it is short enough to be written; for the others a
sentence without the value stands in, since a message must not fail itself.
-/

namespace TextScore.Fault

open Number

/-- A number inside a message, if it is short enough to be written. -/
def number? (n : Int) : Option String := (writeInt n).toOption.map String.ofList

/-- A double inside a message. -/
def double (x : Float) : String := String.ofList (showShortest .short x)

/-- What is wrong with a setting. -/
def settingMessage? : Fault → Option String
  | defaultTempoNotPositive tempo =>
    some ("default_tempo must be positive, got " ++ double tempo ++ ".")
  | invalidDefaultTimeSignature numerator denominator => do
    let n ← number? numerator
    let d ← number? denominator
    return "Invalid default time signature " ++ n ++ "/" ++ d ++ "."
  | unknownDefaultDuration code => some ("Unknown default duration code '" ++ code ++ "'.")
  | playbackTempoNotPositive tempo => some ("tempo must be positive, got " ++ double tempo ++ ".")
  | velocityOutOfRange velocity =>
    (number? velocity).map fun v ↦ "velocity must be in 0-127, got " ++ v ++ "."
  | _ => none

/-- What is said about a fault. -/
def message (f : Fault) : String :=
  match f with
  | numeralTooLong => "an integer has more than 4300 digits"
  | integerTooLarge => "an integer is too large for a double"
  | divisionByZero => "division by zero"
  | infiniteNumber => "an infinite number has no whole part"
  | notANumber => "what is not a number has no whole part"
  | lengthTooLarge => "a text would be longer than any text can be"
  | outOfMemory => "a text would be too long to be held"
  | unknownInstrument id => "there is no instrument '" ++ id ++ "'"
  | malformedNoteName name => "'" ++ name ++ "' is no note name"
  | unencodableText text => "'" ++ text ++ "' has a character that MIDI texts do not have"
  | fieldTooSmall => "a number does not fit its field in the MIDI file"
  | unusablePath _ => "a path has the null character"
  | _ => f.settingMessage?.getD "a setting is out of range"

end TextScore.Fault
