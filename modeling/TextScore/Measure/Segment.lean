import TextScore.Journal
import TextScore.Measure.Directive
import TextScore.Number.Double
import TextScore.Staff

/-!
# Cutting the body into blocks

This is the second reading of the lines of a score: the measures, their tempo and time signature,
and the staff lines in them.  A block is a range of measures with one tempo and one time signature,
and with the staff lines that are played over it from its first beat on.

A measure header opens a block.  A tempo or a time signature before the first header holds from
there on; one inside a block holds for the whole block, the lines before it included, and for the
blocks that follow.  So what a directive says reaches backwards to the header and forwards to the
next directive, and the state of the reading has to hold both the values that are active and the
block they still change.

* `Block` — a range of measures.
* `Block.measureCount`, `Block.beatSeconds`, `Block.measureBeats` — how long things last.
* `Segmenting` — what is known behind a line.
* `Segmenting.step` — one line more.
* `Body.segment` — the blocks of a text, its title and its composer.

What stands behind a header on its line is read as a line of its own, and may be a header again.
The recursion in `Segmenting.step` is on the length of the line, which a header shortens.
-/

namespace TextScore

open Text Number

/-! ## Blocks of measures

A tempo and a time signature are positive when they come from a score, and the divisions below then
cannot fail; a block built otherwise may have zeros in it, and so they are faults of their own. -/

/-- A range of measures. -/
structure Block where
  /-- The first measure. -/
  first : Int
  /-- The last measure. -/
  last : Int
  /-- Quarter notes per minute. -/
  tempo : Float
  /-- The time signature. -/
  timeSignature : TimeSignature
  /-- The staff lines with their numbers. -/
  lines : List (Nat × List Char) := []

/-- The quarter-note beats of a measure. -/
def TimeSignature.measureBeats (t : TimeSignature) : Except Fault Float := do
  let beat ← divide 4 (← ofInt t.denominator)
  return (← ofInt t.numerator) * beat

namespace Block

/-- How many measures there are, at least one. -/
def measureCount (b : Block) : Int := max 1 (b.last - b.first + 1)

/-- How long a quarter note lasts, in seconds. -/
def beatSeconds (b : Block) : Except Fault Float := divide 60 b.tempo

/-- The quarter-note beats of a measure. -/
def measureBeats (b : Block) : Except Fault Float := b.timeSignature.measureBeats

/-- The quarter-note beats of all measures. -/
def beats (b : Block) : Except Fault Float := do
  let beats ← b.measureBeats
  return (← ofInt b.measureCount) * beats

end Block

/-! ## Cutting the body into blocks

The state is a record of what holds, and every kind of line is a function on it.  A line that is a
directive is never anything else, and in a meta block every line is one, so the order of the tests
in `Segmenting.step` decides what a line means. -/

/-- What is known of the body behind a line. -/
structure Segmenting where
  /-- The tempo that holds. -/
  tempo : Float
  /-- The time signature that holds. -/
  timeSignature : TimeSignature
  /-- The title. -/
  title? : Option (List Char) := none
  /-- The composer. -/
  composer? : Option (List Char) := none
  /-- A meta block is open. -/
  inMeta : Bool := false
  /-- The blocks before the current one. -/
  closed : List Block := []
  /-- The current block. -/
  current? : Option Block := none

/-- The blocks of a score and what its meta blocks say. -/
structure Body where
  /-- The blocks, in order. -/
  blocks : List Block
  /-- The title. -/
  title? : Option String
  /-- The composer. -/
  composer? : Option String

namespace Segmenting

/-- All blocks, in order. -/
def blocks (g : Segmenting) : List Block := g.closed ++ g.current?.toList

/-- The tempo of a directive; one that is not positive is reported and left out. -/
def setTempo (line : Nat) (g : Segmenting) (text : List Char) : Pass Segmenting :=
  match findTempo? text with
  | none => pure g
  | some t =>
    if t.value > 0 then pure { g with tempo := t.value }
    else do
      report line (.ignoredTempo (String.ofList t.text))
      return g

/-- The time signature of a directive; one with a zero in it is reported and left out. -/
def setTimeSignature (line : Nat) (g : Segmenting) (text : List Char) : Pass Segmenting :=
  match findTimeSignature? text with
  | none => pure g
  | some (n, d) => do
    let numerator ← Noted.ofExcept (readNat n)
    let denominator ← Noted.ofExcept (readNat d)
    if 0 < numerator ∧ 0 < denominator then
      return { g with timeSignature := ⟨numerator, denominator⟩ }
    else
      report line (.ignoredTimeSignature numerator denominator)
      return g

/-- The title and the composer of a directive. -/
def setNames (g : Segmenting) (text : List Char) : Segmenting :=
  { g with
    title? := findTitle? text <|> g.title?
    composer? := findComposer? text <|> g.composer? }

/-- The tempo and the time signature that hold are those of the current block. -/
def updateBlock (g : Segmenting) : Segmenting :=
  { g with
    current? := g.current?.map fun b ↦
      { b with tempo := g.tempo, timeSignature := g.timeSignature } }

/-- A directive takes effect. -/
def applyDirective (line : Nat) (g : Segmenting) (text : List Char) : Pass Segmenting := do
  let g ← g.setTempo line text
  let g ← g.setTimeSignature line text
  return (g.setNames text).updateBlock

/-- A measure header opens a block; a range that ends before it starts is reported and cut down to
its first measure. -/
def openBlock (line : Nat) (g : Segmenting) (h : MeasureHeader) : Pass Segmenting := do
  let first ← Noted.ofExcept (readNat h.first)
  let last ←
    match h.last? with
    | some ds => Noted.ofExcept (readNat ds)
    | none => pure first
  if last < first then report line (.reversedRange first last)
  let last := max first last
  note (.blockOpened first last line)
  return { g with
    closed := g.blocks
    current? := some { first, last, tempo := g.tempo, timeSignature := g.timeSignature } }

/-- A line that sets nothing and opens nothing: a declaration, or a staff line of the current
block. -/
def addLine (line : Nat) (g : Segmenting) (text : List Char) : Pass Segmenting :=
  if isDeclarationLine text then pure g
  else
    match Assignment.read? text, g.current? with
    | none, _ => do
      report line (.unrecognisedLine (String.ofList text))
      return g
    | some _, none => do
      report line .staffLineTooEarly
      return g
    | some _, some b =>
      pure { g with current? := some { b with lines := b.lines ++ [(line, text)] } }

/-- The line is read as a directive: it is one, or a meta block is open. -/
def readsDirective (g : Segmenting) (text : List Char) : Bool := g.inMeta || isDirective text

/-- Whether a meta block is open behind a directive. -/
def inMetaAfter (g : Segmenting) (text : List Char) : Bool :=
  if g.inMeta then !MetaBlock.closes text else MetaBlock.opens text

/-- One line more, without blanks around it. -/
def step (line : Nat) (g : Segmenting) (text : List Char) : Pass Segmenting :=
  if g.readsDirective text then
    applyDirective line { g with inMeta := g.inMetaAfter text } text
  else
    match _h : MeasureHeader.read? text with
    | some header => do
      let g ← g.openBlock line header
      let rest := trim header.rest
      if rest.isEmpty then return g else step line g rest
    | none => g.addLine line text
termination_by text.length
decreasing_by
  have := MeasureHeader.read?_length _h
  have := trim_length_le header.rest
  omega

/-- One line more; blank lines do not matter. -/
def readLine (g : Segmenting) (l : Nat × List Char) : Pass Segmenting :=
  let text := trim l.2
  if text.isEmpty then pure g else step l.1 g text

end Segmenting

/-- The body that the lines describe. -/
def Body.segment (defaults : Defaults) (ls : List (Nat × List Char)) : Pass Body := do
  let start : Segmenting := { tempo := defaults.tempo, timeSignature := defaults.timeSignature }
  let g ← ls.foldlM Segmenting.readLine start
  return ⟨g.blocks, g.title?.map String.ofList, g.composer?.map String.ofList⟩

end TextScore
