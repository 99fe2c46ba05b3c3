import TextScore.Number.Layout
import TextScore.Score.Basic
import TextScore.Text.Line

/-!
# Scores as a listing

A listing for people: the title, the groups, one line for each note with a bar as long as the note,
and the diagnostics.

How long a bar may become is a matter of the machine.  So the room that there is for one is an
argument; without it, a bar may take up all that a program can address.  What is proved of listings
in `TextScore.Proofs.Score.Shown` holds for any room.

* `Score.barLength` — the length of the bar of a note.
* `Score.listingWithin` — the text, on a machine with so much room.
* `Score.listing` — the text, on a machine with as much room as there can be.
-/

namespace TextScore

open Text Number

/-- A text filled up with blanks on its right. -/
def padRight (width : Nat) (s : List Char) : List Char :=
  s ++ List.replicate (width - s.length) ' '

/-- A text filled up with blanks on its left. -/
def padLeft (width : Nat) (s : List Char) : List Char :=
  List.replicate (width - s.length) ' ' ++ s

namespace Score

/-- How many characters of a bar stand for a second. -/
def barsPerSecond : Float := 4

/-- The first length that no text can have. -/
def lengthBound : Nat := Nat.pow 2 63

/-- The bytes that a program can address: no text is as long as that. -/
def addressSpace : Nat := Nat.pow 2 47

/-- The length of the bar of a note, at least one, if it is a length and there is room for it. -/
def barLength (room : Nat) (e : NoteEvent) : Except Fault Nat := do
  let n ← truncate (e.duration * barsPerSecond)
  if lengthBound ≤ n then .error .lengthTooLarge
  else if room ≤ n then .error .outOfMemory
  else .ok (max 1 n).toNat

/-- The line of a note. -/
def noteLine (room : Nat) (e : NoteEvent) : Except Fault (List Char) := do
  let bar := List.replicate (← barLength room e) '='
  return padLeft 8 (showFixed 3 e.start) ++ ['s', ' ', ' '] ++
    padRight 8 e.instrumentId.toList ++ [' '] ++ padRight 5 e.pitch.toList ++ [' '] ++ bar

/-- The lines of the title, if there is one. -/
def titleLines (s : Score) : List (List Char) :=
  match s.title?.getD "", s.composer?.getD "" with
  | "", _ => []
  | title, "" => [title.toList, []]
  | title, composer => [(title ++ " (" ++ composer ++ ")").toList, []]

/-- The line of a group. -/
def groupLine (g : GroupLayout) : List Char :=
  g.name.toList ++ [':', ' '] ++
    joinWith [',', ' '] (g.rows.map fun r ↦ (r.name ++ " [" ++ r.id ++ "]").toList)

/-- The lines of the groups, if there are any. -/
def groupLines (s : Score) : List (List Char) :=
  if s.groups.isEmpty then [] else s.groups.map groupLine ++ [[]]

/-- The line that counts the notes. -/
def countLine (s : Score) : List Char :=
  digits s.events.length ++ " event(s), total ".toList ++ showFixed 3 s.totalDuration ++ ['s']

/-- The score as a listing, if there is room for bars shorter than a bound. -/
def listingWithin (room : Nat) (s : Score) : Except Fault String := do
  let notes ← s.events.mapM (noteLine room)
  let all := s.titleLines ++ s.groupLines ++ notes ++ [[], s.countLine] ++
    s.diagnostics.map fun d ↦ d.text.toList
  return String.ofList (unlines all ++ ['\n'])

/-- The score as a listing. -/
def listing (s : Score) : Except Fault String := s.listingWithin addressSpace

end Score

end TextScore
