import TextScore.CommandLine.Directory
import TextScore.CommandLine.Options
import TextScore.Fault
import TextScore.Journal
import TextScore.Number.Layout
import TextScore.Text.Character
import TextScore.Text.Scan

/-!
# A run of the program

A run writes to two streams and to files, and ends with an exit code or with a fault.  All that it
has written when it ends stays written, so the state of a run is kept beside its ending and not lost
with it.

* `LogLevel` — how much of the log is shown.
* `logLines` — the lines of the log for the journal of a compilation.
* `Session` — what has been written so far.
* `Command` — a step of a run.
* `say`, `warnLine`, `logAll` — writing to the streams.
* `exitWith`, `orBreak` — the two ways to end.

The time does not pass during a run: what stands for it in the log is given at the start.
-/

namespace TextScore.CommandLine

open Text Number

/-! ## The log of a run

What the journal of a compilation shows on a terminal: the stages in detail, a summary, or only
warnings.  A problem shows when it gives a new diagnostic, so the log is made in the order of the
journal with the diagnostics so far at hand. -/

/-- How grave a line of the log is. -/
inductive LogLevel
  /-- A detail. -/
  | debug
  /-- A summary. -/
  | info
  /-- Something went missing. -/
  | warning
  deriving DecidableEq, Repr

namespace LogLevel

/-- The word for a level. -/
def label : LogLevel → String
  | debug => "DEBUG"
  | info => "INFO"
  | warning => "WARNING"

/-- The place of a level. -/
def rank : LogLevel → Nat
  | debug => 0
  | info => 1
  | warning => 2

/-- The level for a number of requests to see more. -/
def ofVerbosity : Nat → LogLevel
  | 0 => warning
  | 1 => info
  | _ => debug

end LogLevel

/-- A line of the log. -/
structure LogLine where
  /-- The part of the program that speaks. -/
  part : String
  /-- The level. -/
  level : LogLevel
  /-- What is said. -/
  message : String
  deriving DecidableEq, Repr

/-- A line of the log with the time in front. -/
def LogLine.text (time : String) (l : LogLine) : String :=
  String.intercalate " - " [time, "omniscore." ++ l.part, l.level.label, l.message]

/-- A number in the log. -/
def number (n : Int) : String := String.ofList (signedDigits n)

/-- A double in the log, in a number of significant digits. -/
def rounded (count : Nat) (x : Float) : String := String.ofList (showSignificant count x)

/-- A double in the log, with three places. -/
def seconds (x : Float) : String := String.ofList (showFixed 3 x)

/-- The line for a new diagnostic. -/
def diagnosticLine (d : Diagnostic) : LogLine :=
  ⟨"compiler", .debug,
    "line " ++ number d.line ++ ": " ++ d.severity.label ++ ": " ++ d.message⟩

/-- The line for an entry that is not a problem. -/
def entryLine? : Entry → Option LogLine
  | .macroDefined name body =>
    some ⟨"preprocessor", .debug, "macro " ++ name ++ " = " ++ quoted body⟩
  | .groupOpened name line =>
    some ⟨"declarations", .debug, "group " ++ quoted name ++ " opened at line " ++ number line⟩
  | .instrumentDeclared id name =>
    some ⟨"declarations", .debug, "instrument " ++ quoted id ++ " (" ++ name ++ ") declared"⟩
  | .blockOpened first last line =>
    some ⟨"segmenter", .debug,
      "measure block " ++ number first ++ "-" ++ number last ++ " at line " ++ number line⟩
  | .problem _ _ => none
  | .blockPlayed first last beats tempo beatOffset secondsOffset =>
    some ⟨"compiler", .debug,
      "measures " ++ number first ++ "-" ++ number last ++ ": " ++ rounded 3 beats ++
        " beats at " ++ rounded 6 tempo ++ " BPM, now at beat " ++ rounded 6 beatOffset ++ " (" ++
        rounded 6 secondsOffset ++ " s)"⟩
  | .compiled events blocks length diagnostics =>
    some ⟨"compiler", .info,
      "compiled " ++ number events ++ " event(s) in " ++ number blocks ++ " block(s), " ++
        seconds length ++ " s, " ++ number diagnostics ++ " diagnostic(s)"⟩

/-- The diagnostics so far and the lines so far, with one entry more.  A problem shows only when it
gives a new diagnostic. -/
def logStep (p : Array Diagnostic × Array LogLine) (e : Entry) : Array Diagnostic × Array LogLine :=
  match e with
  | .problem line what =>
    let d := Diagnostic.ofProblem line what
    let ds := Diagnostic.insert p.1 d
    (ds, if ds.size = p.1.size then p.2 else p.2.push (diagnosticLine d))
  | e => (p.1, match entryLine? e with | some l => p.2.push l | none => p.2)

/-- The lines of the log for a journal. -/
def logLines (j : Journal) : List LogLine := (j.foldl logStep (#[], #[])).2.toList

/-- The lines that are shown at a level. -/
def shown (level : LogLevel) (ls : List LogLine) : List LogLine :=
  ls.filter fun l ↦ level.rank ≤ l.level.rank

/-! ## A run of the program -/

/-- What a run has written so far. -/
structure Session where
  /-- Standard output. -/
  stdout : String := ""
  /-- Standard error. -/
  stderr : String := ""
  /-- The files. -/
  directory : Directory
  /-- How much of the log is shown. -/
  level : LogLevel := .warning
  /-- What stands for the time in the log. -/
  clock : String

/-- The end of a run before its last step. -/
inductive Ending
  /-- The run ends with an exit code. -/
  | exit (code : Nat)
  /-- The run breaks off. -/
  | broken (fault : Fault)

/-- A step of a run: what it writes is kept when the run ends. -/
abbrev Command := EStateM Ending Session

/-! ### Terminal escapes

Output goes to files and pipes, and an escape in the text of a score would only be noise there.  It
is dropped from all that is said, but not from the log. -/

/-- A character between the start of an escape and its letter. -/
def isEscapeParameter (c : Char) : Bool := c == ';' || c == '?' || c.isDigit

/-- Reads a terminal escape off the front: the escape character, a bracket, parameters and a
letter. -/
def readEscape? : List Char → Option (Unit × List Char)
  | '\x1b' :: '[' :: s =>
    match s.dropWhile isEscapeParameter with
    | c :: r => if c.isAlpha then some ((), r) else none
    | [] => none
  | _ => none

/-- Finds terminal escapes. -/
def escapes : Recogniser Unit where
  read? _ s := readEscape? s
  shortens {_ s _ r} h := by
    unfold readEscape? at h
    split at h
    case h_1 s =>
      split at h
      case h_1 c t ht =>
        have := (List.dropWhile_suffix isEscapeParameter (l := s)).length_le
        rw [ht, List.length_cons] at this
        split at h
        case isTrue =>
          cases h
          simp only [List.length_cons]
          omega
        case isFalse => simp at h
      case h_2 => simp at h
    case h_2 => simp at h

/-- A text without terminal escapes, which only a terminal understands. -/
def dropEscapes (s : String) : String :=
  String.ofList (fill (fun _ ↦ []) (escapes.pieces s.toList))

/-! ### Writing -/

/-- Writes to standard output. -/
def say (s : String) : Command Unit :=
  modify fun t ↦ { t with stdout := t.stdout ++ dropEscapes s }

/-- Writes a line to standard output. -/
def sayLine (s : String) : Command Unit := say (s ++ "\n")

/-- Writes a line to standard error. -/
def warnLine (s : String) : Command Unit :=
  modify fun t ↦ { t with stderr := t.stderr ++ dropEscapes (s ++ "\n") }

/-- Writes lines of the log to standard error, as far as they are shown. -/
def logAll (ls : List LogLine) : Command Unit :=
  modify fun t ↦
    let text := (shown t.level ls).foldl (fun s l ↦ s ++ l.text t.clock ++ "\n") ""
    { t with stderr := t.stderr ++ text }

/-- Ends the run with an exit code. -/
def exitWith {α : Type} (code : Nat) : Command α := throw (.exit code)

/-- A value, or the end of the run. -/
def orBreak {α : Type} : Except Fault α → Command α
  | .ok a => pure a
  | .error f => throw (.broken f)

end TextScore.CommandLine
