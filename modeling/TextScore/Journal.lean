import TextScore.Fault
import TextScore.Number.Numeral

/-!
# Problems and the journal of a compilation

Everything that can be wrong with score text, and what happens with it.

A stage of the compiler reports a `Problem`, which says what was found and holds the text that its
message quotes.  All messages are made in one place, so no stage writes a sentence, and a statement
about a stage is about the problems it reports rather than about strings.  In the journal a problem
stands at the number of its line, among the steps that a log shows.

What the writer of the score is told are the diagnostics: one for every line and message, in the
order in which they were first reported.  A staff line that three instruments play is read three
times and complains three times, but it is one line, and its writer has made one mistake.  Since the
journal keeps all three, what is dropped here is dropped by `Journal.diagnostics` alone.

* `Problem` — what can be wrong.
* `Problem.message`, `Problem.severity` — how it is reported.
* `Diagnostic` — a message at a line.
* `Entry` — one thing that happened.
* `Pass` — a stage of the compiler; its notes are entries.
* `Journal.reports` — the problems with their lines, as often as they were met.
* `Journal.diagnostics` — every message once for a line.
-/

namespace TextScore

open Number

/-! ## Problems in a score

A problem holds the parts of the text that its message quotes, as they were found. -/

/-- How grave a diagnostic is. -/
inductive Severity
  /-- Worth knowing. -/
  | info
  /-- Something was left out or guessed. -/
  | warning
  /-- A label that this compiler does not give out. -/
  | other (label : String)
  deriving DecidableEq, Repr

/-- The word for a severity. -/
def Severity.label : Severity → String
  | info => "info"
  | warning => "warning"
  | other label => label

/-- The severity with the given word. -/
def Severity.ofLabel (label : String) : Severity :=
  if label = "info" then info else if label = "warning" then warning else other label

/-- A recoverable problem in a score. -/
inductive Problem
  /-- A reference to a fragment that has no definition. -/
  | undefinedMacro (name : String)
  /-- A shift behind a reference. -/
  | shiftIgnored (name : String)
  /-- A repeat group that would grow too long. -/
  | repeatTooLarge (count limit : Nat)
  /-- A staff line for an instrument without declaration. -/
  | undeclaredInstrument (id : String)
  /-- A transposition that is not a whole number. -/
  | invalidTranspose (value id : String)
  /-- A second declaration of an instrument. -/
  | declaredAgain (id : String)
  /-- A tempo that is not positive. -/
  | ignoredTempo (value : String)
  /-- A time signature with a zero in it. -/
  | ignoredTimeSignature (numerator denominator : Nat)
  /-- A measure range that ends before it starts. -/
  | reversedRange (first last : Nat)
  /-- A line of no known kind. -/
  | unrecognisedLine (line : String)
  /-- A staff line before any measure header. -/
  | staffLineTooEarly
  /-- A duration code that is not in the table. -/
  | unknownDuration (code : String)
  /-- A grid with a duration code that is not in the table. -/
  | unknownGrid (code : String)
  /-- A note that does not start with a pitch letter. -/
  | unrecognisedPitch (text : String) (octave : Int)
  /-- A token of no known kind. -/
  | ignoredToken (text : String)
  /-- A score without notes. -/
  | noPlayableNotes
  deriving DecidableEq, Repr

namespace Problem

/-- A number inside a message. -/
def number (n : Int) : String := String.ofList (signedDigits n)

/-- What the writer of the score is told. -/
def message : Problem → String
  | undefinedMacro name => "undefined macro '$" ++ name ++ "'"
  | shiftIgnored name => "shift suffix on '$" ++ name ++ "' is ignored"
  | repeatTooLarge count limit =>
    "repeat count " ++ number count ++ " is too large, using " ++ number limit
  | undeclaredInstrument id => "instrument '" ++ id ++ "' was not declared"
  | invalidTranspose value id => "invalid transpose '" ++ value ++ "' for '" ++ id ++ "'"
  | declaredAgain id => "instrument '" ++ id ++ "' declared again"
  | ignoredTempo value => "ignoring tempo " ++ value
  | ignoredTimeSignature n d => "ignoring time signature " ++ number n ++ "/" ++ number d
  | reversedRange first last =>
    "measure range " ++ number first ++ "-" ++ number last ++ " is reversed; using measure " ++
      number first
  | unrecognisedLine line => "unrecognised line '" ++ line ++ "'"
  | staffLineTooEarly => "staff line before the first measure header is ignored"
  | unknownDuration code => "unknown duration ':" ++ code ++ "', using a quarter note"
  | unknownGrid code => "unknown grid resolution '!" ++ code ++ "', using a quarter note"
  | unrecognisedPitch text octave =>
    "unrecognised pitch '" ++ text ++ "', using C" ++ number octave
  | ignoredToken text => "ignoring token '" ++ text ++ "'"
  | noPlayableNotes => "No playable notes found in the score."

/-- A shift suffix does no harm; all else leaves something out. -/
def severity : Problem → Severity
  | shiftIgnored _ => .info
  | _ => .warning

end Problem

/-- A message about a line of the score; line 0 is the score as a whole. -/
structure Diagnostic where
  /-- What was found. -/
  message : String
  /-- The number of the line. -/
  line : Int
  /-- How grave it is. -/
  severity : Severity := .warning
  deriving DecidableEq, Repr

namespace Diagnostic

/-- A diagnostic as one line of text; the score as a whole has no line number. -/
def text (d : Diagnostic) : String :=
  let body := d.severity.label ++ ": " ++ d.message
  if d.line = 0 then body else Problem.number d.line ++ ": " ++ body

/-- The diagnostic for a problem. -/
def ofProblem (line : Nat) (p : Problem) : Diagnostic := ⟨p.message, line, p.severity⟩

/-- A list of diagnostics with one more, unless its line already has that message. -/
def insert (ds : Array Diagnostic) (d : Diagnostic) : Array Diagnostic :=
  if ds.any fun e ↦ e.line == d.line && e.message == d.message then ds else ds.push d

end Diagnostic

/-! ## The journal of a compilation

The entries are in order.  Problems at line zero are about the score as a whole. -/

/-- One thing that happened while a score was compiled. -/
inductive Entry
  /-- A fragment got its text. -/
  | macroDefined (name body : String)
  /-- A group header was read. -/
  | groupOpened (name : String) (line : Nat)
  /-- An instrument was declared. -/
  | instrumentDeclared (id displayName : String)
  /-- A measure header was read. -/
  | blockOpened (first last line : Nat)
  /-- Something was passed over. -/
  | problem (line : Nat) (what : Problem)
  /-- A block of measures was played; the offsets are those of the next one. -/
  | blockPlayed (first last : Int) (beats tempo beatOffset secondsOffset : Float)
  /-- The score was compiled. -/
  | compiled (events blocks : Nat) (seconds : Float) (diagnostics : Nat)
  deriving Repr

/-- What happened, in order. -/
abbrev Journal := Array Entry

/-- A step of a compilation. -/
abbrev Pass := Noted Entry

/-- Notes a problem at a line. -/
def report (line : Nat) (p : Problem) : Pass Unit := note (.problem line p)

/-- A computation on the text of a line, its problems placed at that line. -/
def atLine {α : Type} (line : Nat) (x : Noted Problem α) : Pass α := x.mapNotes (.problem line)

namespace Journal

/-- The problems with their lines, in order. -/
def reports (j : Journal) : List (Nat × Problem) :=
  j.toList.filterMap fun
    | .problem line p => some (line, p)
    | _ => none

/-- The diagnostics, each message once for a line. -/
def diagnostics (j : Journal) : Array Diagnostic :=
  j.reports.foldl (fun ds r ↦ Diagnostic.insert ds (.ofProblem r.1 r.2)) #[]

end Journal

end TextScore
