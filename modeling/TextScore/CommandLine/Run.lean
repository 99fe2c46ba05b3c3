import TextScore.CommandLine.Session
import TextScore.Midi.Arrangement
import TextScore.Number.Numeral
import TextScore.Score.Compile
import TextScore.Score.Listing
import TextScore.Score.Payload
import TextScore.Text.Utf8

/-!
# The command line

The command `compile SCORE_FILE` shows a score as a listing or as JSON, and `midi SCORE_FILE` writes
it to a MIDI file.

A run is one function from its arguments and the files that are there to what it has said, the files
that are there then, and its exit code.  It goes through the same stations for both commands: the
arguments are read, the score is read and compiled, the result is made, written, and the run ends.
At each station it can end early, and what was written before stays.

* `Request` — what the arguments of a command ask for.
* `compileScore` — reads and compiles the score; the defaults come from the request.
* `runCompile`, `runMidi` — the two commands.
* `run` — a whole run.

Exit code 2 is for arguments that make no sense, with the usage; exit code 1 is for a file that
cannot be used and for a score without notes.  A fault breaks a run off, and it has exit code 1 too.
A score without notes is still shown by `compile`, and no file is written for it by `midi`.
-/

namespace TextScore.CommandLine

open Text Number Midi

/-- The version of the program. -/
def versionNumber : String := "0.1.0"

/-- How the arguments before the command are read. -/
def programGrammar : Arguments.Grammar := ⟨[.version, .verbose, .help], false⟩

/-- The commands. -/
inductive Task
  /-- Show a score. -/
  | compile
  /-- Write a MIDI file. -/
  | midi
  deriving DecidableEq, Repr

namespace Task

/-- The name of a command. -/
def name : Task → String
  | compile => "compile"
  | midi => "midi"

/-- The command of a name. -/
def ofName? (s : String) : Option Task :=
  if s = "compile" then some compile else if s = "midi" then some midi else none

/-- How the arguments of a command are read. -/
def grammar : Task → Arguments.Grammar
  | compile => ⟨[.format, .output, .tempo, .help], true⟩
  | midi => ⟨[.output, .tempo, .help], true⟩

end Task

/-- The line that says how something is used. -/
def usageLine : Option Task → String
  | none => "Usage: omniscore [OPTIONS] COMMAND [ARGS]..."
  | some t => "Usage: omniscore " ++ t.name ++ " [OPTIONS] SCORE_FILE"

/-- What a user types to see how something is used. -/
def helpCommand : Option Task → String
  | none => "omniscore -h"
  | some t => "omniscore " ++ t.name ++ " -h"

/-- Ends the run because of its arguments. -/
def refuse {α : Type} (task? : Option Task) (e : UsageError) : Command α := do
  if e.showsUsage then
    warnLine (usageLine task?)
    warnLine ("Try '" ++ helpCommand task? ++ "' for help.")
    warnLine ""
  warnLine ("Error: " ++ e.message)
  exitWith 2

/-- A value, or the end of the run because of its arguments. -/
def orRefuse {α : Type} (task? : Option Task) : Except UsageError α → Command α
  | .ok a => pure a
  | .error e => refuse task? e

/-! ## Settings of a command

The options are read in the order in which they were first given, so of several wrong values the one
that is complained about is the first. -/

/-- The forms of the output. -/
inductive OutputFormat
  /-- A listing. -/
  | text
  /-- JSON. -/
  | json
  deriving DecidableEq, Repr

/-- The form of a name, in any case. -/
def OutputFormat.ofName? (s : String) : Option OutputFormat :=
  if (dropKeyword? "text".toList s.toList) = some [] then some text
  else if (dropKeyword? "json".toList s.toList) = some [] then some json
  else none

/-- What the arguments of a command ask for. -/
structure Request where
  /-- The path of the score. -/
  score : String
  /-- The form of the output. -/
  format : OutputFormat := .text
  /-- The path of the output. -/
  output? : Option String := none
  /-- The tempo of scores that name none. -/
  tempo? : Option Float := none

namespace Request

/-- Reads a tempo, from 1 to 1000. -/
def readTempo (value : String) : Except UsageError Float :=
  match readDouble? value.toList with
  | none => .error (.tempoNotNumeric value)
  | some x =>
    if x < 1 ∨ 1000 < x then
      .error (.tempoOutOfRange (String.ofList (showShortest .short x)))
    else .ok x

/-- The request with the value of an option. -/
def readOption (a : Arguments) (r : Request) (f : Flag) : Except UsageError Request :=
  match f, a.value? f with
  | .format, some value =>
    match OutputFormat.ofName? value with
    | some format => .ok { r with format }
    | none => .error (.unknownFormat value)
  | .output, some value => .ok { r with output? := some value }
  | .tempo, some value => (readTempo value).map fun x ↦ { r with tempo? := some x }
  | _, _ => .ok r

/-- What the options and the first argument ask for: first the options count, in the order in which
they were given. -/
def ofArguments (a : Arguments) : Except UsageError Request := do
  let r ← a.flags.foldlM (readOption a) { score := "" }
  match a.positional with
  | [] => .error .missingScore
  | score :: _ => return { r with score }

/-- The score must be a file, and nothing may stand behind its path. -/
def check (d : Directory) (a : Arguments) (r : Request) : Except UsageError Unit :=
  match d.resolve r.score, a.positional.drop 1 with
  | .error _, _ => .error (.scoreMissing r.score)
  | .ok .folder, _ => .error (.scoreIsFolder r.score)
  | .ok (.file _), [] => .ok ()
  | .ok (.file _), extra => .error (.unexpectedArguments extra)

end Request

/-! ## The commands

The order of the steps matters where files are concerned.  `compile` makes its text before it writes
a file, so nothing is lost when that fails; `midi` arranges the score before it opens its file and
makes the bytes behind that. -/

/-- Breaks off at a path with the null character. -/
def checkPath (path : String) : Command Unit :=
  if path.toList.contains '\x00' then orBreak (.error (.unusablePath path)) else pure ()

/-- What is said about a score without notes. -/
def emptyWarning : String := "  WARNING: " ++ Problem.noPlayableNotes.message

/-- Ends the run because a file cannot be used. -/
def fileFailure {α : Type} (doing message : String) : Command α := do
  warnLine ("  ERROR: Could not " ++ doing ++ " — " ++ message)
  exitWith 1

/-- The text of the score. -/
def readText (path : String) : Command String := do
  match (← get).directory.resolve (Path.normal path) with
  | .error e => fileFailure "read score file" (e.message (Path.normal path))
  | .ok .folder => fileFailure "read score file" (FileError.isAFolder.message (Path.normal path))
  | .ok (.file bytes) =>
    match Utf8.decode bytes with
    | .error e => fileFailure "read score file" e.message
    | .ok s => return String.ofList (Utf8.unifyLineEnds s)

/-- Writes a file. -/
def writeFile (doing path : String) (bytes : List UInt8) : Command Unit := do
  checkPath path
  match (← get).directory.write path bytes with
  | .error e => fileFailure doing (e.message path)
  | .ok directory => modify fun t ↦ { t with directory }

/-- Reads and compiles the score. -/
def compileScore (r : Request) : Command Score := do
  let text ← readText r.score
  let defaults ← orBreak (({} : Defaults).withTempo r.tempo?)
  let (score, journal) := Score.ofText defaults text
  logAll (logLines journal)
  orBreak score

/-- Ends the run if there is nothing to play. -/
def refuseEmpty (s : Score) : Command Unit := do
  if !s.hasPlayableNotes then
    warnLine emptyWarning
    exitWith 1

/-- The score in the form that is asked for. -/
def render (f : OutputFormat) (s : Score) : Except Fault String :=
  match f with
  | .text => s.listing
  | .json => s.toJson (some 2)

/-- Shows a score. -/
def runCompile (r : Request) : Command Unit := do
  let s ← compileScore r
  let content ← orBreak (render r.format s)
  match r.output? with
  | none => say content
  | some path =>
    writeFile "write output file" (Path.normal path) (Utf8.encode content.toList)
    sayLine ("Wrote " ++ number s.events.length ++ " event(s) → '" ++ path ++ "'")
  refuseEmpty s

/-- The score arranged for a MIDI file.  The header has to have room for all tracks: one for the
tempo, one for the texts and one for each instrument. -/
def Request.build (r : Request) (s : Score) : Except Fault Arrangement := do
  let playback ← Playback.check { tempo := r.tempo?.getD 120 }
  let _ ← headerChunk ((trackRows s).length + 2)
  Arrangement.ofScore playback s

/-- Writes an arrangement to a file.  Opening the file empties it, so that a file is lost whose new
bytes turn out to be no MIDI file. -/
def writeArrangement (path : String) (a : Arrangement) : Command Unit := do
  writeFile "write MIDI file" path []
  let bytes ← orBreak a.fileBytes
  writeFile "write MIDI file" path bytes
  sayLine ""
  sayLine ("Done!  Open '" ++ path ++ "' in MuseScore or any MIDI player.")

/-- Writes a score to a MIDI file. -/
def runMidi (r : Request) : Command Unit := do
  let path := r.output?.getD (Path.withSuffix r.score ".mid")
  sayLine ("omniscore v" ++ versionNumber)
  sayLine ("  Score  : " ++ r.score)
  sayLine ("  Output : " ++ path)
  sayLine ""
  sayLine "[1/2] Compiling score..."
  let s ← compileScore r
  s.warnings.forM fun d ↦ warnLine ("      " ++ d.text)
  refuseEmpty s
  sayLine ("      " ++ number s.events.length ++ " event(s), " ++
    String.ofList (showFixed 2 s.totalDuration) ++ " s")
  sayLine ("[2/2] Writing MIDI file → '" ++ path ++ "'...")
  let a ← orBreak (r.build s)
  logAll (a.warning?.map fun w ↦ ⟨"midi_exporter", .warning, w⟩).toList
  writeArrangement path a

/-- Runs a command with its arguments. -/
def runTask (t : Task) (args : List String) : Command Unit := do
  let a ← orRefuse (some t) (t.grammar.parse args)
  if a.count .help > 0 then
    sayLine (usageLine (some t))
  else
    let r ← orRefuse (some t) (Request.ofArguments a)
    checkPath r.score
    orRefuse (some t) (r.check (← get).directory a)
    match t with
    | .compile => runCompile r
    | .midi => runMidi r

/-- Reads the arguments before the command; the version ends the run. -/
def readProgramArguments (args : List String) : Command Arguments := do
  let a ← orRefuse none (programGrammar.parse args)
  if a.count .version > 0 then
    sayLine ("omniscore, version " ++ versionNumber)
    exitWith 0
  if a.count .help > 0 then
    sayLine (usageLine none)
    exitWith 0
  return a

/-- The name of a command looks like an option. -/
def looksLikeOption (name : String) : Bool := name.toList.head?.any fun c ↦ !isAlphanumeric c

/-- Finds the command and runs it.  When a name that looks like an option is no command, it and
what follows are read as options once more. -/
def runProgram (args : List String) : Command Unit := do
  let a ← readProgramArguments args
  match a.positional with
  | [] => refuse none .missingCommand
  | name :: rest =>
    match Task.ofName? name with
    | some t =>
      modify fun s ↦ { s with level := .ofVerbosity (a.count .verbose) }
      runTask t rest
    | none =>
      if looksLikeOption name then
        let _ ← readProgramArguments (name :: rest)
      refuse none (.noSuchCommand name)

/-- What a run leaves. -/
structure Outcome where
  /-- The exit code. -/
  exitCode : Nat
  /-- Why the run broke off, if it did. -/
  fault? : Option Fault
  /-- Standard output, standard error and the files. -/
  session : Session

/-- A run of the program. -/
def run (clock : String) (directory : Directory) (args : List String) : Outcome :=
  match (runProgram args).run { directory, clock } with
  | .ok () s => ⟨0, none, s⟩
  | .error (.exit code) s => ⟨code, none, s⟩
  | .error (.broken f) s => ⟨1, some f, s⟩

end TextScore.CommandLine
