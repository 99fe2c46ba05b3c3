import TextScore.Ensemble.Declaration
import TextScore.Journal
import TextScore.Text.Character

/-!
# Collecting the ensemble

The lines of a score are read twice, once for its declarations and once for its body.  This is the
first reading.  It goes through the lines with a small state, and what it keeps of a line is decided
by the line's beginning: a group header, a declaration, a lone closing brace, or nothing of
interest.

Instruments declared outside every named group belong to the default group.  A named group ends at a
line that ends with a closing brace, at the next header, or with the text; a group without members
is dropped.  The default group is treated like the others here: it is closed by a header and a fresh
one is opened by a brace, so a score can have the default group several times, see
`TextScore.Proofs.Ensemble.DefaultGroup`.

* `MetaBlock.opens`, `MetaBlock.closes` — the two tests for meta blocks on a line.
* `Collecting` — what is known behind a line.
* `Collecting.step` — one line more.
* `Ensemble.collect` — the ensemble of a text.

Both readings have to agree on where meta blocks are, and they use the same two tests.  They do not
apply them to the same texts, however: here it is the whole line, in the other reading also what
stands behind a measure header.
-/

namespace TextScore.MetaBlock

open Text

/-! ## Meta blocks

A line that starts with the word `meta` and opens a brace without closing one starts a meta block,
which ends with the next line that has a closing brace, wherever on the line it stands.  Inside,
nothing is a declaration and everything may be a directive. -/

/-- The keyword ends here: no word character follows. -/
def endsWord (s : List Char) : Bool := !s.head?.any isWord

/-- The line opens a meta block. -/
def opens (line : List Char) : Bool :=
  match dropKeyword? "meta".toList line with
  | some r => endsWord r && r.contains '{' && !r.contains '}'
  | none => false

/-- The line closes a meta block. -/
def closes (line : List Char) : Bool := line.contains '}'

end TextScore.MetaBlock

namespace TextScore

open Text

/-! ## Collecting the ensemble

A declaration that cannot be read declares nothing and is not reported here: the second reading sees
the same line and decides whether it is of any other kind. -/

/-- What is known of the ensemble behind a line. -/
structure Collecting where
  /-- The instruments and the groups that are closed. -/
  ensemble : Ensemble
  /-- The name of the open group, or `none` for the default group. -/
  heading? : Option String := none
  /-- The members of the open group. -/
  members : List String := []
  /-- A meta block is open. -/
  inMeta : Bool := false

namespace Collecting

/-- The open group. -/
def group (c : Collecting) : Group :=
  ⟨c.heading?.getD c.ensemble.defaults.groupName, c.members⟩

/-- The groups with the open one, unless it has no members. -/
def closedGroups (c : Collecting) : List Group :=
  if c.members.isEmpty then c.ensemble.groups else c.ensemble.groups ++ [c.group]

/-- The ensemble with the open group closed. -/
def finish (c : Collecting) : Ensemble := { c.ensemble with groups := c.closedGroups }

/-- The open group is closed and another one is opened. -/
def reopen (c : Collecting) (heading? : Option String) : Collecting :=
  { c with ensemble := c.finish, heading?, members := [] }

/-- The ensemble with an instrument; a new one joins the open group. -/
def add (c : Collecting) (i : Instrument) : Collecting :=
  { c with
    ensemble := c.ensemble.register i
    members := if c.ensemble.instruments.contains i.id then c.members else c.members ++ [i.id] }

/-- One declaration more.  What cannot be read declares nothing. -/
def declare (line : Nat) (c : Collecting) (text : List Char) : Pass Collecting :=
  match Declaration.read? text with
  | none => pure c
  | some d => do
    let i ← atLine line d.instrument
    if c.ensemble.instruments.contains i.id then report line (.declaredAgain i.id)
    note (.instrumentDeclared i.id i.displayName)
    return c.add i

/-- The declarations of a line, and the end of the group if a closing brace stands behind them. -/
def declareAll (line : Nat) (c : Collecting) (text : List Char) : Pass Collecting := do
  let closes := text.getLast? == some '}'
  let text := if closes then trim text.dropLast else text
  let c ← (splitDeclarations text).foldlM (declare line) c
  return if closes && c.heading?.isSome then c.reopen none else c

/-- One line more, without blanks around it. -/
def step (line : Nat) (c : Collecting) (text : List Char) : Pass Collecting :=
  if c.inMeta then pure { c with inMeta := !MetaBlock.closes text }
  else if MetaBlock.opens text then pure { c with inMeta := true }
  else
    match Heading.read? text with
    | some h => do
      let name := String.ofList h.name
      note (.groupOpened name line)
      declareAll line (c.reopen name) h.declarations
    | none =>
      if text = ['}'] ∨ startsDeclaration text then declareAll line c text else pure c

/-- One line more; blank lines do not matter. -/
def readLine (c : Collecting) (l : Nat × List Char) : Pass Collecting :=
  let text := trim l.2
  if text.isEmpty then pure c else step l.1 c text

end Collecting

/-- The ensemble that the lines declare. -/
def Ensemble.collect (defaults : Defaults) (ls : List (Nat × List Char)) : Pass Ensemble := do
  let c ← ls.foldlM Collecting.readLine { ensemble := { defaults } }
  return c.finish

end TextScore
