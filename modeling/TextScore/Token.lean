import TextScore.Text.Character
import TextScore.Text.Line

/-!
# Tokens

What a staff line is made of, and how it is taken apart.  This happens in two steps that know
nothing of each other: the line is cut into words, and each word is read for what it is.  The second
step has no state, so the only thing that can go wrong across tokens is the cutting.

Blanks separate tokens, except inside square brackets, and a bar outside brackets is always a token
of its own.  An annotation, in angle brackets or double quotes, starts a token and takes everything
up to its closing mark; without a closing mark it is ordinary text.  An annotation does not end the
token it starts: what follows the closing mark without a blank belongs to the same token, see
`TextScore.Proofs.Token.Annotation`.

* `Token` — one thing written on a staff line.
* `Cutting` — where the cutting stands.
* `splitTokens` — the tokens of a line, as written.
* `splitDuration` — a note and the duration code behind its first colon.
* `Token.read` — a token from its text.
* `tokenize` — the tokens of a staff line.

Reading a token is total: what is of no known kind is a token too, and it is for the assembly to
report it.
-/

namespace TextScore

open Text

/-! ## Tokens -/

/-- One thing written on a staff line. -/
inductive Token
  /-- A note, with the code behind its colon. -/
  | pitch (text : String) (duration : Option String)
  /-- Notes that sound together. -/
  | chord (pitches : List String) (duration : Option String)
  /-- A silence. -/
  | rest (duration : Option String)
  /-- The duration of the notes that name none. -/
  | grid (duration : String)
  /-- The end of a measure. -/
  | barline
  /-- Dynamics, hairpins or quoted text. -/
  | marking (text : String)
  /-- Anything else. -/
  | unknown (text : String)
  deriving DecidableEq, Repr

/-! ## Cutting a staff line into tokens

One pass from left to right with the token under way, the number of open brackets, and the mark that
an annotation waits for.  Brackets are counted and the count never goes below zero: a stray closing
bracket is text, and an opening bracket that is never closed takes the rest of the line.  The step
sees the characters still to come for one purpose, to know whether an annotation will be closed. -/

/-- The mark that ends an annotation which starts with `c`. -/
def annotationCloser? (c : Char) : Option Char :=
  if c = '<' then some '>' else if c = '"' then some '"' else none

/-- Where the cutting of a line stands. -/
structure Cutting where
  /-- The finished tokens, the last one first. -/
  done : List (List Char)
  /-- The token under way, its last character first. -/
  current : List Char
  /-- How many brackets are open. -/
  depth : Nat
  /-- The mark that an annotation under way waits for. -/
  closer : Option Char
  deriving DecidableEq, Repr

namespace Cutting

/-- Nothing cut yet. -/
def start : Cutting := ⟨[], [], 0, none⟩

/-- The token under way is finished, if there is one. -/
def flush (k : Cutting) : Cutting :=
  if k.current.isEmpty then k else { k with done := k.current.reverse :: k.done, current := [] }

/-- One character more in the token under way. -/
def push (k : Cutting) (c : Char) : Cutting := { k with current := c :: k.current }

/-- The closing mark, if the character starts an annotation: at the start of a token, outside
brackets, and with the closing mark to come. -/
def opens? (k : Cutting) (c : Char) (rest : List Char) : Option Char :=
  if k.current.isEmpty && k.depth == 0 then
    (annotationCloser? c).filter fun mark ↦ rest.contains mark
  else none

/-- The number of open brackets after one more character. -/
def depthAfter (depth : Nat) (c : Char) : Nat :=
  if c = '[' then depth + 1 else if c = ']' then depth - 1 else depth

/-- The cutting after an ordinary character. -/
def stepPlain (k : Cutting) (c : Char) : Cutting :=
  let k := { k with depth := depthAfter k.depth c }
  if k.depth = 0 && isBlank c then k.flush
  else if k.depth = 0 && c == '|' then
    let k := k.flush
    { k with done := [c] :: k.done }
  else k.push c

/-- The cutting after one more character, given the characters behind it. -/
def step (k : Cutting) (c : Char) (rest : List Char) : Cutting :=
  match k.closer with
  | some mark => { k.push c with closer := if c = mark then none else some mark }
  | none =>
    match k.opens? c rest with
    | some mark => { k.push c with closer := some mark }
    | none => k.stepPlain c

/-- The cutting after a text. -/
def run (k : Cutting) : List Char → Cutting
  | [] => k
  | c :: s => run (k.step c s) s

/-- The tokens, once the line has ended. -/
def tokens (k : Cutting) : List (List Char) := k.flush.done.reverse

end Cutting

/-- The tokens of a line, as written. -/
def splitTokens (s : List Char) : List (List Char) := (Cutting.start.run s).tokens

/-! ## Reading tokens

What a token is, is decided by its first characters.  A chord ends at its last closing bracket; its
notes keep no brackets of their own, so nested ones are flattened. -/

/-- A character of a numeric duration code. -/
def isDurationChar (c : Char) : Bool := isDigit c || c == '.'

/-- The duration code at the front of what follows a colon: digits and points if there are any,
otherwise all of it. -/
def durationCode (s : List Char) : List Char :=
  let code := s.takeWhile isDurationChar
  if code.isEmpty then s else code

/-- The note before the first colon, and the duration code behind it. -/
def splitDuration (s : List Char) : List Char × Option (List Char) :=
  (s.takeWhile (· != ':'),
    match s.dropWhile (· != ':') with
    | _ :: c :: r => some (durationCode (c :: r))
    | _ => none)

/-- The code of a grid token: an exclamation mark and a text without blanks, up to a final line
feed. -/
def gridCode? : List Char → Option (List Char)
  | '!' :: s =>
    let code := dropFinalLineFeed s
    if code.isEmpty || code.any isBlank then none else some code
  | _ => none

/-- What follows the opening bracket of a chord, cut at the last closing bracket. -/
def splitChord (s : List Char) : List Char × List Char :=
  match s.reverse.dropWhile (· != ']') with
  | [] => (s, [])
  | _ :: inner => (inner.reverse, (s.reverse.takeWhile (· != ']')).reverse)

/-- A square bracket. -/
def isBracket (c : Char) : Bool := c == '[' || c == ']'

/-- The notes of a chord. -/
def chordPitches (inner : List Char) : List (List Char) :=
  ((words inner).map (·.filter fun c ↦ !isBracket c)).filter fun p ↦ !p.isEmpty

namespace Token

/-- A token that is neither a bar, a grid, an annotation nor a chord. -/
def readNote (s : List Char) : Token :=
  let (note, duration) := splitDuration s
  if note = ['r'] ∨ note = ['R'] then rest (duration.map String.ofList)
  else if note.head?.any isAlphanumeric then
    pitch (String.ofList note) (duration.map String.ofList)
  else unknown (String.ofList s)

/-- A token from its text. -/
def read (s : List Char) : Token :=
  if s = ['|'] then barline
  else
    match gridCode? s with
    | some code => grid (String.ofList code)
    | none =>
      match s with
      | '<' :: _ => marking (String.ofList s)
      | '"' :: _ => marking (String.ofList s)
      | '[' :: r =>
        let (inner, suffix) := splitChord r
        chord ((chordPitches inner).map String.ofList)
          ((splitDuration suffix).2.map String.ofList)
      | _ => readNote s

end Token

/-- The tokens of a staff line. -/
def tokenize (s : List Char) : List Token := (splitTokens s).map Token.read

end TextScore
