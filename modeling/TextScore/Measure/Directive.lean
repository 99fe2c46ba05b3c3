import TextScore.Ensemble.Collect
import TextScore.Ensemble.Declaration
import TextScore.Number.Numeral
import TextScore.Text.Scan

/-!
# Directives and other lines of the body

A line of the body sets something (tempo, time signature, title, composer), opens a block of
measures, or gives an instrument something to play.  This module reads each kind of line by itself;
which of them a line is taken for, when it could be several, is decided in
`TextScore.Measure.Segment`.

* `isDirective` — the line sets something.
* `findTempo?`, `findTimeSignature?`, `findTitle?`, `findComposer?` — what it sets.
* `MeasureHeader.read?` — a measure header and what stands behind it.
* `Assignment.read?` — the instruments of a staff line and what they play.

Numbers stay numerals here.  They may be too long to be read, and that is a fault of the stage that
needs their value.
-/

namespace TextScore

open Text Number

/-- A colon or an equals sign at the front is left out. -/
def dropSetter : List Char → List Char
  | ':' :: s => s
  | '=' :: s => s
  | s => s

/-! ## What a line sets

A directive has no grammar.  It is a line that starts with one of five words, with an at sign, or
that consists of a time signature, and each of the four things it can set is searched for in it
wherever it may stand.  Quoted texts are emptied before the search for numbers, so that a title with
a slash in it is no time signature; the searches for title and composer go through the whole
line. -/

/-- Two whole numbers with a slash between them, at the front of a text. -/
def readFraction? (s : List Char) : Option ((List Char × List Char) × List Char) :=
  let n := s.takeWhile isDigit
  if n.isEmpty then none
  else
    match (s.dropWhile isDigit).dropWhile isBlank with
    | '/' :: r =>
      let r := r.dropWhile isBlank
      let d := r.takeWhile isDigit
      if d.isEmpty then none else some ((n, d), r.dropWhile isDigit)
    | _ => none

/-- The line consists of a time signature. -/
def isFraction (line : List Char) : Bool :=
  match readFraction? line with
  | some (_, r) => r.all isBlank
  | none => false

/-- The line starts with the keyword, as a word of its own. -/
def startsWithKeyword (line keyword : List Char) : Bool :=
  (dropKeyword? keyword line).any MetaBlock.endsWord

/-- The keywords of directives. -/
def directiveKeywords : List (List Char) :=
  ["meta".toList, "tempo".toList, "time".toList, "title".toList, "composer".toList]

/-- The line sets something. -/
def isDirective (line : List Char) : Bool :=
  directiveKeywords.any (startsWithKeyword line) || line.head? == some '@' || isFraction line

/-- A text in double quotes at the front, for the search for quoted texts. -/
def quotedTexts : Recogniser (List Char) where
  read? _ s := dropQuoted? s
  shortens := dropQuoted?_length

/-- The line with all quoted texts emptied, so that nothing is found in them. -/
def unquote (line : List Char) : List Char :=
  fill (fun _ ↦ ['"', '"']) (quotedTexts.pieces line)

/-- A decimal number at the front of a text, as it is written: a sign, digits, and digits behind a
point. -/
structure TempoNumeral where
  /-- A minus sign stands in front. -/
  negative : Bool
  /-- The digits. -/
  whole : List Char
  /-- The digits behind the point. -/
  fraction : List Char
  deriving DecidableEq, Repr

namespace TempoNumeral

/-- Reads a decimal number. -/
def read? (s : List Char) : Option TempoNumeral :=
  let (negative, r) := match s with
    | '-' :: r => (true, r)
    | r => (false, r)
  let whole := r.takeWhile isDigit
  if whole.isEmpty then none
  else
    match r.dropWhile isDigit with
    | '.' :: t => some ⟨negative, whole, t.takeWhile isDigit⟩
    | _ => some ⟨negative, whole, []⟩

/-- The number. -/
def value (t : TempoNumeral) : Float :=
  let x := ofDecimal t.whole t.fraction 0
  if t.negative then -x else x

/-- The number as it is written. -/
def text (t : TempoNumeral) : List Char :=
  (if t.negative then ['-'] else []) ++ t.whole ++
    if t.fraction.isEmpty then [] else '.' :: t.fraction

end TempoNumeral

/-- Tries `f` behind every occurrence of a keyword that starts a word, from the left. -/
def findBehind? {α : Type} (keyword : List Char) (f : List Char → Option α) (before : Bool) :
    List Char → Option α
  | [] => none
  | c :: s =>
    match (if before then none else dropKeyword? keyword (c :: s)).bind f with
    | some a => some a
    | none => findBehind? keyword f (isWord c) s

/-- The tempo that a line sets. -/
def findTempo? (line : List Char) : Option TempoNumeral :=
  findBehind? "tempo".toList
    (fun s ↦ TempoNumeral.read? ((dropSetter (s.dropWhile isBlank)).dropWhile isBlank))
    false (unquote line)

/-- The leftmost place where `f` finds something. -/
def findAt? {α : Type} (f : List Char → Option α) : List Char → Option α
  | [] => none
  | c :: s =>
    match f (c :: s) with
    | some a => some a
    | none => findAt? f s

/-- The time signature that a line sets, as two numerals. -/
def findTimeSignature? (line : List Char) : Option (List Char × List Char) :=
  findAt? (fun s ↦ (readFraction? s).map Prod.fst) (unquote line)

/-- A colon and a quoted text, with blanks before both. -/
def readQuotedValue? (s : List Char) : Option (List Char) :=
  match s.dropWhile isBlank with
  | ':' :: r => (dropQuoted? (r.dropWhile isBlank)).map Prod.fst
  | _ => none

/-- The title that a line sets. -/
def findTitle? (line : List Char) : Option (List Char) :=
  findBehind? "title".toList readQuotedValue? false line

/-- The composer that a line sets. -/
def findComposer? (line : List Char) : Option (List Char) :=
  findBehind? "composer".toList readQuotedValue? false line

/-! ## Measure headers

A header is read off the front of a line and what follows is kept, since it is a line again.  A
range that does not end at a blank or with the line is no range, and then the first measure has to
end so. -/

/-- A measure header: `measure 4`, `m 4..7` or `m 4-7`. -/
structure MeasureHeader where
  /-- The first measure. -/
  first : List Char
  /-- The last measure, if it is named. -/
  last? : Option (List Char)
  /-- What stands behind the header. -/
  rest : List Char
  deriving DecidableEq, Repr

namespace MeasureHeader

/-- What follows the mark of a range, two points or a hyphen. -/
def dropRangeMark? : List Char → Option (List Char)
  | '.' :: '.' :: s => some s
  | '-' :: s => some s
  | _ => none

/-- The header ends here: with the line, or at a blank. -/
def ends (s : List Char) : Bool := s.isEmpty || s.head?.any isBlank

/-- The last measure at the front of what follows the first one, and the rest. -/
def readLast? (s : List Char) : Option (List Char × List Char) := do
  let r ← dropRangeMark? (s.dropWhile isBlank)
  let r := r.dropWhile isBlank
  let ds := r.takeWhile isDigit
  let rest := r.dropWhile isDigit
  if ds.isEmpty || !ends rest then none else some (ds, rest)

/-- What follows the keyword of a measure header and the blanks behind it. -/
def dropKeyword (line : List Char) : Option (List Char) :=
  ((dropKeyword? "measure".toList line).bind dropBlanks?).or
    ((dropKeyword? "m".toList line).bind dropBlanks?)

/-- The measure header at the front of a text, and all that stands behind it. -/
def front? (text : List Char) : Option MeasureHeader := do
  let s ← dropKeyword text
  let ds := s.takeWhile isDigit
  let r := s.dropWhile isDigit
  if ds.isEmpty then none
  else
    match readLast? r with
    | some (last, rest) => some ⟨ds, some last, rest⟩
    | none => if ends r then some ⟨ds, none, r⟩ else none

/-- Reads a measure header; what stands behind it does not go beyond the line. -/
def read? (line : List Char) : Option MeasureHeader :=
  (front? line).filter fun h ↦ !h.rest.contains '\n'

theorem dropRangeMark?_length {s r : List Char} (h : dropRangeMark? s = some r) :
    r.length ≤ s.length := by
  unfold dropRangeMark? at h
  split at h <;> simp at h <;> subst h <;> simp
  omega

theorem readLast?_length {s ds r : List Char} (h : readLast? s = some (ds, r)) :
    r.length ≤ s.length := by
  unfold readLast? at h
  obtain ⟨t, ht, h⟩ := Option.bind_eq_some_iff.1 h
  dsimp only at h
  split at h
  case isTrue => simp at h
  case isFalse =>
    cases h
    have e₁ := dropRangeMark?_length ht
    have e₂ := (List.dropWhile_suffix isBlank (l := s)).length_le
    have e₃ := (List.dropWhile_suffix isBlank (l := t)).length_le
    have e₄ := (List.dropWhile_suffix isDigit (l := t.dropWhile isBlank)).length_le
    omega

theorem dropKeyword_length {s r : List Char} (h : dropKeyword s = some r) :
    r.length < s.length := by
  unfold dropKeyword at h
  rcases Option.or_eq_some_iff.1 h with h | ⟨-, h⟩ <;>
    obtain ⟨t, ht, h⟩ := Option.bind_eq_some_iff.1 h <;>
    have e₁ := dropKeyword?_length ht <;>
    have e₂ := dropBlanks?_length h <;>
    simp at e₁ <;> omega

theorem read?_length {s : List Char} {m : MeasureHeader} (h : read? s = some m) :
    m.rest.length < s.length := by
  replace h := (Option.filter_eq_some_iff.1 h).1
  unfold front? at h
  obtain ⟨t, ht, h⟩ := Option.bind_eq_some_iff.1 h
  have e₁ := dropKeyword_length ht
  have e₂ := (List.dropWhile_suffix isDigit (l := t)).length_le
  dsimp only at h
  split at h
  case isTrue => simp at h
  case isFalse =>
    split at h
    case h_1 last rest hl =>
      cases h
      have e₃ := readLast?_length hl
      dsimp only
      omega
    case h_2 =>
      split at h
      case isTrue =>
        cases h
        dsimp only
        omega
      case isFalse => simp at h

end MeasureHeader

/-! ## Declarations and staff lines

The ids of a staff line are words, in any script.  What is played may be empty, and it may hold
further colons; it ends with the line. -/

/-- The line belongs to the declarations: it starts with `group`, `def` or `d` and a blank, or with
the word `instruction`, or is a closing brace. -/
def isDeclarationLine (line : List Char) : Bool :=
  startsDeclaration line ||
    ((dropKeyword? "group".toList line).any fun r ↦ r.head?.any isBlank) ||
    startsWithKeyword line "instruction".toList || line == ['}']

/-- A staff line: instruments and what they play. -/
structure Assignment where
  /-- The ids of the instruments, in order. -/
  ids : List (List Char)
  /-- What they play. -/
  content : List Char
  deriving DecidableEq, Repr

namespace Assignment

/-- Words separated by commas, up to a colon: the words, and what follows the colon. -/
def readIds? (s : List Char) : Option (List (List Char) × List Char) :=
  let id := s.takeWhile isWord
  if id.isEmpty then none
  else
    match h : (s.dropWhile isWord).dropWhile isBlank with
    | ':' :: r => some ([id], r)
    | ',' :: r =>
      have := (List.dropWhile_suffix isBlank (l := r)).length_le
      have := (List.dropWhile_suffix isBlank (l := s.dropWhile isWord)).length_le
      have := (List.dropWhile_suffix isWord (l := s)).length_le
      have := congrArg List.length h
      (readIds? (r.dropWhile isBlank)).map fun p ↦ (id :: p.1, p.2)
    | _ => none
termination_by s.length
decreasing_by
  rw [List.length_cons] at *
  omega

/-- Reads a staff line; what is played does not go beyond the line. -/
def read? (line : List Char) : Option Assignment :=
  match readIds? (trim line) with
  | some (ids, content) =>
    if content.contains '\n' then none else some ⟨ids, trim content⟩
  | none => none

end Assignment

end TextScore
