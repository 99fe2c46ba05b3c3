import TextScore.OrderedMap
import TextScore.Text.Character
import TextScore.Text.Line

/-!
# Directories

The files that a command line can name, as seen from the working directory.  A run needs to know of
three things: what a path leads to, whether a file can be written there, and what is said if not.

* `Location` — where a path leads.
* `Directory.resolve` — follows a path, step by step.
* `Directory.write` — a file with new contents, or why it cannot be written.
* `Path.normal`, `Path.withSuffix` — paths rewritten without looking at files.

A path is followed one step at a time, as a file system does: every step needs a folder to start
from, so `a/../b` needs a folder `a`, and a name that is too long is found out where it stands.
Rewriting a path is different and looks at its text alone.

There are no links and no permissions, and the folders above the working directory hold nothing but
what is put there.  A path out of the working directory is kept as it is written, with its leading
steps upward.
-/

namespace TextScore

open Text

/-- What a path can name. -/
inductive Node
  /-- A file with its bytes. -/
  | file (bytes : List UInt8)
  /-- A folder. -/
  | folder
  deriving DecidableEq, Repr

/-- Why a file cannot be opened. -/
inductive FileError
  /-- There is no such file. -/
  | missing
  /-- A folder is needed and there is a file. -/
  | notAFolder
  /-- A file is needed and there is a folder. -/
  | isAFolder
  /-- A name, or the whole path, has too many bytes. -/
  | nameTooLong
  deriving DecidableEq, Repr

/-- The error in words, with the path. -/
def FileError.message (e : FileError) (path : String) : String :=
  let text := match e with
    | missing => "[Errno 2] No such file or directory: "
    | notAFolder => "[Errno 20] Not a directory: "
    | isAFolder => "[Errno 21] Is a directory: "
    | nameTooLong => "[Errno 36] File name too long: "
  text ++ quoted path

/-- The steps from the working directory, or from the root if the first one is a slash. -/
abbrev Location := List String

namespace Location

/-- The name under which a location is kept. -/
def key (l : Location) : String :=
  match l with
  | "/" :: l => "/" ++ String.intercalate "/" l
  | l => String.intercalate "/" l

/-- One step more. -/
def enter (l : Location) (step : String) : Location :=
  if step = "" ∨ step = "." then l
  else if step = ".." then
    match l.getLast? with
    | none => [".."]
    | some ".." => l ++ [".."]
    | some "/" => l
    | some _ => l.dropLast
  else l ++ [step]

end Location

namespace Path

/-- The steps of a path, empty ones included. -/
def steps (path : String) : List String := (splitOnChar '/' path.toList).map String.ofList

/-- Where a path starts, and its steps from there. -/
def start (path : String) : Location × List String :=
  if path.toList.head? = some '/' then (["/"], steps path) else ([], steps path)

/-- The most bytes of a name. -/
def maxNameBytes : Nat := 255

/-- The most bytes of a path. -/
def maxBytes : Nat := 4095

/-- A path that can be followed: it is not empty, and not too long. -/
def check (path : String) : Except FileError Unit :=
  if path = "" then .error .missing
  else if maxBytes < path.utf8ByteSize then .error .nameTooLong
  else .ok ()

/-- A step that leads somewhere. -/
def isProper (step : String) : Bool := step != "" && step != "."

/-- The path without empty steps and steps that stay in place. -/
def normal (path : String) : String :=
  let root := path.toList.takeWhile (· == '/')
  let root := if root.length = 2 then "//" else if root.isEmpty then "" else "/"
  let body := root ++ String.intercalate "/" ((steps path).filter isProper)
  if body = "" then "." else body

/-- A file name with another suffix.  The suffix starts at the last point, which is neither the
first nor the last character. -/
def renameSuffix (name suffix : List Char) : List Char :=
  let tail := (name.reverse.takeWhile (· != '.')).length
  if tail = 0 ∨ name.length ≤ tail + 1 then name ++ suffix
  else name.take (name.length - tail - 1) ++ suffix

/-- The path with another suffix. -/
def withSuffix (path suffix : String) : String :=
  let path := (normal path).toList
  let name := (path.reverse.takeWhile (· != '/')).reverse
  String.ofList (path.take (path.length - name.length) ++ renameSuffix name suffix.toList)

end Path

/-- The files and folders by location.  The working directory, the folders above it and the root are
always there. -/
structure Directory where
  /-- The files and folders that are known. -/
  nodes : OrderedMap Node := ∅

namespace Directory

/-- What is at a location. -/
def node? (d : Directory) (l : Location) : Option Node :=
  match l.getLast? with
  | none | some ".." | some "/" => some .folder
  | some _ => d.nodes.get? l.key

/-- Follows the steps of a path; every step starts in a folder and has a name that is not too
long. -/
def follow (d : Directory) (l : Location) : List String → Except FileError (Location × Node)
  | [] =>
    match d.node? l with
    | some n => .ok (l, n)
    | none => .error .missing
  | step :: steps =>
    match d.node? l with
    | none => .error .missing
    | some (.file _) => .error .notAFolder
    | some .folder =>
      if Path.maxNameBytes < step.utf8ByteSize then .error .nameTooLong
      else follow d (l.enter step) steps

/-- What a path leads to. -/
def resolve (d : Directory) (path : String) : Except FileError Node := do
  Path.check path
  let (start, steps) := Path.start path
  return (← d.follow start steps).2

/-- The location of a file that is to be written.  The folder it is in must be there, and the path
must end in a name; a slash behind the name asks for a folder, even if there is a file. -/
def target (d : Directory) (path : String) : Except FileError Location := do
  Path.check path
  let (start, steps) := Path.start path
  let named := (steps.reverse.dropWhile (· == "")).reverse
  let (folder, node) ← d.follow start named.dropLast
  let name := named.getLast?.getD "."
  let l := folder.enter name
  if node ≠ .folder then .error .notAFolder
  else if name = "." ∨ name = ".." ∨ named ≠ steps then .error .isAFolder
  else if Path.maxNameBytes < name.utf8ByteSize then .error .nameTooLong
  else if d.node? l = some .folder then .error .isAFolder
  else .ok l

/-- The directory with a file written, or why it cannot be. -/
def write (d : Directory) (path : String) (bytes : List UInt8) : Except FileError Directory := do
  let l ← d.target path
  return { nodes := d.nodes.put l.key (.file bytes) }

/-- The nodes with a folder at a location, unless something is there. -/
def addFolder (nodes : OrderedMap Node) (l : Location) : OrderedMap Node :=
  if l = [] ∨ nodes.contains l.key then nodes else nodes.put l.key .folder

/-- The directory with a file or a folder at a path, and the folders on the way to it. -/
def place (d : Directory) (path : String) (node : Node) : Directory :=
  let (start, steps) := Path.start path
  let l := steps.foldl Location.enter start
  let above := (List.range l.length).map l.take
  { nodes := (above.foldl addFolder d.nodes).put l.key node }

/-- The files that are new or have other contents than before. -/
def changes (before after : Directory) : List (String × List UInt8) :=
  after.nodes.entries.filterMap fun e ↦
    match e.2 with
    | .folder => none
    | .file bytes => if before.nodes.get? e.1 = some (.file bytes) then none else some (e.1, bytes)

end Directory

end TextScore
