import TextScore.Number.Layout

/-!
# JSON text

JSON values with their text, either compact or with every item on a line of its own.

* `Json` — a value; the fields of an object are in order.
* `Json.render`, `Json.compact` — its text, in some layout and in the shortest one.

Characters outside ASCII are written as they are.  Numbers that are not finite have the names that
are usual for them, though standard JSON has no names for them.  An object keeps the order of its
fields, and nothing keeps a field from occurring twice: what is written here is written by programs,
and read back in `TextScore.Proofs.Json.Reader`.

The two layouts differ in what stands between items and behind colons, and in nothing else.  All of
this goes through `Layout.newline` and `Layout.colon`, so that one recursion serves both.
-/

namespace TextScore

open Number

/-- A JSON value. -/
inductive Json
  /-- Nothing. -/
  | null
  /-- A truth value. -/
  | bool (value : Bool)
  /-- A whole number. -/
  | int (value : Int)
  /-- A double. -/
  | double (value : Float)
  /-- A text. -/
  | str (value : List Char)
  /-- A sequence. -/
  | arr (items : List Json)
  /-- Fields by name, in order. -/
  | obj (fields : List (String × Json))
  deriving Inhabited

namespace Json

/-- A text. -/
def ofString (s : String) : Json := .str s.toList

/-- A text, or nothing. -/
def ofString? : Option String → Json
  | some s => ofString s
  | none => null

/-- A whole number that is short enough to be written. -/
def ofInt (n : Int) : Except Fault Json :=
  if isWritable n then .ok (.int n) else .error .numeralTooLong

/-- The names of the doubles that are not finite. -/
def specialNames : SpecialNames := ⟨"NaN", "Infinity"⟩

/-- A hexadecimal digit. -/
def hexDigit (n : Nat) : Char := Nat.digitChar n

/-- A character inside a text. -/
def escapeChar (c : Char) : List Char :=
  if c = '"' then ['\\', '"']
  else if c = '\\' then ['\\', '\\']
  else if c = '\n' then ['\\', 'n']
  else if c = '\r' then ['\\', 'r']
  else if c = '\t' then ['\\', 't']
  else if c = '\x08' then ['\\', 'b']
  else if c = '\x0c' then ['\\', 'f']
  else if c.toNat < 0x20 then
    ['\\', 'u', '0', '0', hexDigit (c.toNat / 16), hexDigit (c.toNat % 16)]
  else [c]

/-- A text in quotes. -/
def quote (s : List Char) : List Char := '"' :: (s.flatMap escapeChar ++ ['"'])

/-- How the text is laid out. -/
structure Layout where
  /-- Blanks for each level, with every item on a line of its own; `none` is compact. -/
  indent? : Option Nat

namespace Layout

/-- What stands before an item of the given level. -/
def newline (l : Layout) (level : Nat) : List Char :=
  match l.indent? with
  | none => []
  | some n => '\n' :: List.replicate (n * level) ' '

/-- What stands between a key and its value. -/
def colon (l : Layout) : List Char :=
  match l.indent? with
  | none => [':']
  | some _ => [':', ' ']

/-- Items between two marks. -/
def enclose (l : Layout) (level : Nat) (opening closing : Char) (items : List (List Char)) :
    List Char :=
  match items with
  | [] => [opening, closing]
  | _ =>
    let separator := ',' :: l.newline (level + 1)
    opening ::
      (l.newline (level + 1) ++ separator.intercalate items ++ l.newline level ++ [closing])

end Layout

mutual

/-- The text of a value at a level of nesting. -/
def render (l : Layout) (level : Nat) : Json → List Char
  | null => ['n', 'u', 'l', 'l']
  | bool true => ['t', 'r', 'u', 'e']
  | bool false => ['f', 'a', 'l', 's', 'e']
  | int n => signedDigits n
  | double x => showShortest specialNames x
  | str s => quote s
  | arr items => l.enclose level '[' ']' (renderItems l (level + 1) items)
  | obj fields => l.enclose level '\x7b' '\x7d' (renderFields l (level + 1) fields)

/-- The texts of items. -/
def renderItems (l : Layout) (level : Nat) : List Json → List (List Char)
  | [] => []
  | j :: js => render l level j :: renderItems l level js

/-- The texts of fields. -/
def renderFields (l : Layout) (level : Nat) : List (String × Json) → List (List Char)
  | [] => []
  | (k, j) :: fs =>
    (quote k.toList ++ l.colon ++ render l level j) :: renderFields l level fs

end

/-- The text without blanks. -/
def compact (j : Json) : List Char := j.render ⟨none⟩ 0

end Json

end TextScore
