import TextScore.Ensemble.Basic
import TextScore.Fault
import TextScore.Journal
import TextScore.Number.Numeral
import TextScore.Text.Character
import TextScore.Text.Line
import TextScore.Text.Scan

/-!
# Declarations as they are written

A declaration is `def ID NAME key=value ...` or, shorter, `d ID GROUP VISIBILITY`.  A line may hold
several, each but the first starting with `def`; a group header, `group NAME {`, may stand before
them.

* `Heading.read?` — a group header and what follows its opening brace.
* `splitDeclarations` — the declarations of a line.
* `Declaration.read?` — one declaration.
* `Declaration.instrument` — the instrument it declares.

Reading goes in three layers, and each is looser than the one inside it.  A line is cut wherever
blanks are followed by the word `def`, quotes or not, see `TextScore.Proofs.Ensemble.Split`.  A
declaration is an id and a name, and whatever stands behind them is searched for attributes.  An
attribute is a key, an equals sign and a value, with anything between two of them passed over.  So a
line that starts like a declaration is one, and what is odd in it is lost without a word; only a
transposition that is no number is reported.
-/

namespace TextScore

open Text Number

/-- The text in double quotes at the front, and what follows the closing quote. -/
def dropQuoted? : List Char → Option (List Char × List Char)
  | '"' :: s =>
    match s.dropWhile (· != '"') with
    | _ :: r => some (s.takeWhile (· != '"'), r)
    | [] => none
  | _ => none

/-- What follows the blanks at the front, if there are any. -/
def dropBlanks? (s : List Char) : Option (List Char) :=
  if s.head?.any isBlank then some (s.dropWhile isBlank) else none

theorem dropQuoted?_length {s q r : List Char} (h : dropQuoted? s = some (q, r)) :
    r.length < s.length := by
  unfold dropQuoted? at h
  split at h
  case h_1 s =>
    split at h
    case h_1 c t ht =>
      cases h
      have := (List.dropWhile_suffix (· != '"') (l := s)).length_le
      rw [ht, List.length_cons] at this
      rw [List.length_cons]
      omega
    case h_2 => simp at h
  case h_2 => simp at h

theorem dropBlanks?_length {s r : List Char} (h : dropBlanks? s = some r) :
    r.length ≤ s.length := by
  unfold dropBlanks? at h
  split at h
  case isTrue =>
    cases h
    exact (List.dropWhile_suffix isBlank).length_le
  case isFalse => simp at h

/-! ## Group headers

What stands behind the name of a group is arbitrary text, of which only an opening brace and what
follows it counts.  It ends with the line; a text with a line feed in it is no header. -/

/-- A group header. -/
structure Heading where
  /-- The name of the group. -/
  name : List Char
  /-- What stands behind the name. -/
  rest : List Char
  deriving DecidableEq, Repr

namespace Heading

/-- A character of a name without quotes. -/
def isNameChar (c : Char) : Bool := !isBlank c && c != '{'

/-- The group header at the front of a text, and all that stands behind it. -/
def front? (text : List Char) : Option Heading := do
  let s ← dropBlanks? (← dropKeyword? "group".toList text)
  match dropQuoted? s with
  | some (name, rest) => some ⟨name, rest⟩
  | none =>
    let name := s.takeWhile isNameChar
    if name.isEmpty then none else some ⟨name, s.dropWhile isNameChar⟩

/-- Reads a group header; what stands behind the name does not go beyond the line. -/
def read? (line : List Char) : Option Heading :=
  (front? line).filter fun h ↦ !h.rest.contains '\n'

/-- The declarations on the line of a group header: what follows its first opening brace. -/
def declarations (h : Heading) : List Char := trim ((h.rest.dropWhile (· != '{')).drop 1)

end Heading

/-! ## Several declarations on a line

The word `d` starts a line of declarations but separates nothing, so a short declaration behind
another one is part of that one. -/

/-- The word `def` and a blank. -/
def startsDef (s : List Char) : Bool :=
  match dropKeyword? "def".toList s with
  | some r => r.head?.any isBlank
  | none => false

/-- The line is one of declarations: it starts with `def` or `d` and a blank. -/
def startsDeclaration (s : List Char) : Bool :=
  startsDef s ||
    match dropKeyword? "d".toList s with
    | some r => r.head?.any isBlank
    | none => false

/-- The blanks before a declaration that starts with `def`. -/
def readSeparator? : List Char → Option (Unit × List Char)
  | [] => none
  | c :: s =>
    let r := s.dropWhile isBlank
    if isBlank c && startsDef r then some ((), r) else none

/-- Finds the blanks between declarations. -/
def separators : Recogniser Unit where
  read? _ s := readSeparator? s
  shortens {_ s _ r} h := by
    cases s with
    | nil => simp [readSeparator?] at h
    | cons c s =>
      have := (List.dropWhile_suffix isBlank (l := s)).length_le
      unfold readSeparator? at h
      dsimp only at h
      split at h
      case isTrue =>
        cases h
        rw [List.length_cons]
        omega
      case isFalse => simp at h

/-- One piece more at the front of the parts that follow it. -/
def partStep (p : Piece Unit) (parts : List Char × List (List Char)) :
    List Char × List (List Char) :=
  match p with
  | .plain c => (c :: parts.1, parts.2)
  | .found () => ([], parts.1 :: parts.2)

/-- The declarations of a line. -/
def splitDeclarations (line : List Char) : List (List Char) :=
  let p := (separators.pieces line).foldr partStep ([], [])
  (p.1 :: p.2).filter fun s ↦ !s.isEmpty

/-! ## One declaration

A declaration keeps the texts of its parts as they were written.  What they mean, and what to say
about those that mean nothing, is decided when the instrument is made. -/

/-- An attribute of a declaration, `key=value`. -/
structure Attribute where
  /-- The key, in lower case. -/
  key : List Char
  /-- The value, without the quotes around it. -/
  value : List Char
  deriving DecidableEq, Repr

namespace Attribute

/-- A character of a key. -/
def isKeyChar (c : Char) : Bool := isWord c || c == '-'

/-- A text without the double quotes at its ends. -/
def trimQuotes (s : List Char) : List Char :=
  ((s.dropWhile (· == '"')).reverse.dropWhile (· == '"')).reverse

/-- The value at the front: a text in quotes, or everything up to a blank. -/
def readValue? (s : List Char) : Option (List Char × List Char) :=
  match dropQuoted? s with
  | some p => some p
  | none =>
    let value := s.takeWhile fun c ↦ !isBlank c
    if value.isEmpty then none else some (value, s.dropWhile fun c ↦ !isBlank c)

/-- Reads an attribute off the front of a text. -/
def read? (s : List Char) : Option (Attribute × List Char) :=
  let key := s.takeWhile isKeyChar
  if key.isEmpty then none
  else
    match (s.dropWhile isKeyChar).dropWhile isBlank with
    | '=' :: r =>
      (readValue? (r.dropWhile isBlank)).map fun p ↦
        (⟨key.map Char.toLower, trimQuotes p.1⟩, p.2)
    | _ => none

theorem readValue?_length {s v r : List Char} (h : readValue? s = some (v, r)) :
    r.length ≤ s.length := by
  unfold readValue? at h
  split at h
  case h_1 p hp =>
    cases h
    exact Nat.le_of_lt (dropQuoted?_length hp)
  case h_2 =>
    dsimp only at h
    split at h
    case isTrue => simp at h
    case isFalse =>
      cases h
      exact (List.dropWhile_suffix _).length_le

theorem read?_length {s r : List Char} {a : Attribute} (h : read? s = some (a, r)) :
    r.length < s.length := by
  unfold read? at h
  dsimp only at h
  split at h
  case isTrue => simp at h
  case isFalse =>
    split at h
    case h_1 t ht =>
      obtain ⟨⟨v, u⟩, hu, ha⟩ := Option.map_eq_some_iff.1 h
      cases ha
      have e₁ := readValue?_length hu
      have e₂ := (List.dropWhile_suffix isBlank (l := t)).length_le
      have e₃ := (List.dropWhile_suffix isBlank (l := s.dropWhile isKeyChar)).length_le
      have e₄ := (List.dropWhile_suffix isKeyChar (l := s)).length_le
      rw [ht, List.length_cons] at e₃
      dsimp only at e₁ ⊢
      omega
    case h_2 => simp at h

/-- Finds attributes. -/
def recogniser : Recogniser Attribute where
  read? _ s := read? s
  shortens := read?_length

/-- The attributes in a text. -/
def all (s : List Char) : List Attribute := found (recogniser.pieces s)

/-- The value of a key; of several the last one counts. -/
def value? (as : List Attribute) (key : List Char) : Option (List Char) :=
  (as.reverse.find? fun a ↦ a.key == key).map (·.value)

end Attribute

/-- The declaration of an instrument, as it is written. -/
structure Declaration where
  /-- The name on staff lines. -/
  id : List Char
  /-- The name that is shown; if it is missing or empty the id is shown. -/
  displayName : List Char := []
  /-- The transposition. -/
  transpose? : Option (List Char) := none
  /-- The clef. -/
  clef? : Option (List Char) := none
  /-- The group mark of a short declaration. -/
  groupTag? : Option (List Char) := none
  /-- The visibility mark of a short declaration. -/
  visibilityTag? : Option (List Char) := none
  deriving DecidableEq, Repr

namespace Declaration

/-- A key and an equals sign. -/
def startsAttribute (s : List Char) : Bool :=
  !(s.takeWhile Attribute.isKeyChar).isEmpty &&
    (s.dropWhile Attribute.isKeyChar).head? == some '='

/-- A character of a display name without quotes. -/
def isNameChar (c : Char) : Bool := !isBlank c && c != '{' && c != '}'

/-- The display name behind an id, if there is one, and what follows: a text in quotes, or a word
that is not the start of an attribute. -/
def splitDisplayName (s : List Char) : List Char × List Char :=
  match dropBlanks? s with
  | none => ([], s)
  | some r =>
    match dropQuoted? r with
    | some p => p
    | none =>
      if startsAttribute r then ([], s)
      else
        let name := r.takeWhile isNameChar
        if name.isEmpty then ([], s) else (name, r.dropWhile isNameChar)

/-- Reads a declaration that starts with `def`; what stands behind the name does not go beyond the
line. -/
def readFull? (s : List Char) : Option Declaration := do
  let r ← dropBlanks? (← dropKeyword? "def".toList s)
  let id := r.takeWhile isWord
  if id.isEmpty then none
  else
    let (displayName, rest) := splitDisplayName (r.dropWhile isWord)
    if rest.contains '\n' then none
    else
      let as := Attribute.all rest
      some {
        id, displayName
        transpose? := Attribute.value? as "transpose".toList
        clef? := Attribute.value? as "clef".toList }

/-- Reads a declaration that starts with a small `d`: an id and at most two marks. -/
def readShort? : List Char → Option Declaration
  | 'd' :: s => do
    let r ← dropBlanks? s
    match words r with
    | id :: marks =>
      if id.all isWord && marks.length ≤ 2 then
        some { id, groupTag? := marks[0]?, visibilityTag? := marks[1]? }
      else none
    | [] => none
  | _ => none

/-- Reads a declaration. -/
def read? (s : List Char) : Option Declaration := readFull? s <|> readShort? s

/-- A transposition: a whole number, perhaps with a sign. -/
def isTransposition (s : List Char) : Bool :=
  let ds := (dropSign s).2
  !ds.isEmpty && ds.all isDigit

/-- The number of semitones; what is not a whole number is reported and does not transpose. -/
def semitones (d : Declaration) : Noted Problem Int :=
  match d.transpose? with
  | none => pure 0
  | some value =>
    if isTransposition value then Noted.ofExcept (readInt value)
    else do
      note (.invalidTranspose (String.ofList value) (String.ofList d.id))
      return 0

/-- The instrument that is declared. -/
def instrument (d : Declaration) : Noted Problem Instrument := do
  let transpose ← d.semitones
  return {
    id := String.ofList d.id
    displayName := String.ofList (if d.displayName.isEmpty then d.id else d.displayName)
    transpose
    clef? := d.clef?.map String.ofList
    groupTag? := d.groupTag?.map String.ofList
    visibilityTag? := d.visibilityTag?.map String.ofList }

end Declaration

end TextScore
