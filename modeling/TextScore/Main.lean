import Std.Time
import TextScore.CommandLine.Run
import TextScore.Fault.Message

/-!
# The program

Looks up the files that the arguments may name, runs the command line on them, and carries out what
it has written.

* `lookUp` — the files and folders that the arguments may name.
* `main` — the program.

Everything that decides anything is in `CommandLine.run`, which is a function.  What is left here
are its two ends: which paths are looked at beforehand, generously, since a file that is looked at
and not used does no harm, and the files and texts that are written afterwards.
-/

namespace TextScore.CommandLine

/-- What is at a path; what cannot be looked at is not there. -/
def observe (path : String) : IO (Option Node) :=
  try
    let p ← IO.FS.realPath path
    if ← p.isDir then return some .folder
    else return some (.file (← IO.FS.readBinFile p).toList)
  catch _ => return none

/-- The paths that an argument may name: all of it, what follows an equals sign or a letter, and
the file that is written for it. -/
def candidates (arg : String) : List String :=
  [arg, Path.withSuffix arg ".mid", String.ofList (arg.toList.drop 2)] ++
    (Arguments.Grammar.splitValue arg).2.toList

/-- A path and the folders on the way to it. -/
def waypoints (path : String) : List String :=
  let steps := Path.steps path
  (List.range steps.length).map fun n ↦ String.intercalate "/" (steps.take (n + 1))

/-- The files and folders that the arguments may name. -/
def lookUp (args : List String) : IO Directory :=
  ((args.flatMap candidates).flatMap waypoints).foldlM
    (fun d path ↦ do
      match ← observe path with
      | some node => return d.place path node
      | none => return d)
    {}

/-- The time for the log. -/
def now : IO String := do
  return (← Std.Time.PlainDateTime.now).format "uuuu-MM-dd HH:mm:ss,SSS"

end TextScore.CommandLine

open TextScore CommandLine in
/-- The program. -/
def main (args : List String) : IO UInt32 := do
  let directory ← lookUp args
  let o := run (← now) directory args
  for (path, bytes) in directory.changes o.session.directory do
    IO.FS.writeBinFile path ⟨bytes.toArray⟩
  IO.print o.session.stdout
  IO.eprint o.session.stderr
  if let some f := o.fault? then IO.eprintln f.message
  return o.exitCode.toUInt32
