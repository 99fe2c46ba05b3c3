import TextScore.Fault
import TextScore.Journal
import TextScore.OrderedMap
import TextScore.Text.Character
import TextScore.Text.Line
import TextScore.Text.Scan

/-!
# Comments and named fragments

The two rewritings of a score text that come before its lines are read.

Comments go first.  Two percent signs start one that runs to the end of the line; a line that starts
with two slashes is a comment altogether.  A comment leaves an empty line behind and never removes
one, since every later stage counts lines.

A score may name a fragment of text, `macro NAME = { ... }` or `$NAME = { ... }`, and refer to it as
`$NAME`.  The definitions are taken out of the whole text at once, as they may span lines, and what
is left of each is its line feeds.  The references are looked up much later, in the content of one
staff line at a time, so a fragment can be used above its definition.  Substitution is a single
pass: a fragment that mentions another one is put in as written.  A shift such as `+2` behind a
reference is accepted and does nothing.

* `Comment.strip` — a score text without comments and without blanks at the ends of lines.
* `Macro.Definition.recogniser`, `Macro.Reference.recogniser` — the two notations.
* `Macro.Table.collect` — takes the definitions out of a text and leaves their line feeds.
* `Macro.Table.expand` — puts fragments in for references.
* `Macro.Table.expandFor` — does so for a caller who may ask for reports.
-/

namespace TextScore.Comment

open Text

/-! ## Comments -/

/-- The part of a line before the first two percent signs, behind the reversed text `acc`. -/
def beforeMarkOnto (acc : List Char) : List Char → List Char
  | [] => acc.reverse
  | '%' :: '%' :: _ => acc.reverse
  | c :: s => beforeMarkOnto (c :: acc) s

/-- The part of a line before the first two percent signs. -/
def beforeMark (s : List Char) : List Char := beforeMarkOnto [] s

/-- A line that starts with two slashes, blanks aside. -/
def isCommentLine (s : List Char) : Bool := ['/', '/'].isPrefixOf (trimStart s)

/-- A line without its comment and without blanks at its end. -/
def stripLine (s : List Char) : List Char :=
  let kept := beforeMark s
  if isCommentLine kept then [] else trimEnd kept

/-- A text without its comments.  It has as many lines as before. -/
def strip (s : List Char) : List Char := unlines ((lines s).map stripLine)

end TextScore.Comment

namespace TextScore.Macro

open Text

/-! ## Named fragments

Both notations are recognisers: functions that read one piece off the front of a text and shorten
it.  Cutting a whole text into such pieces and the text between them is done once for all of them,
in `TextScore.Text.Scan`, and the proofs that a recogniser shortens stand beside it. -/

/-- The definition of a fragment, as it is written. -/
structure Definition where
  /-- The name. -/
  name : List Char
  /-- What stands between the braces. -/
  body : List Char
  /-- The whole definition, from its first character to the closing brace. -/
  written : List Char
  deriving DecidableEq, Repr

namespace Definition

/-- The opening of a definition, at the beginning of a word: the text of it and the rest. -/
def dropOpening? (before : Bool) (s : List Char) : Option (List Char × List Char) :=
  match s with
  | '$' :: r => some (['$'], r)
  | _ =>
    if before then none
    else
      match dropKeyword? "macro".toList s with
      | none => none
      | some r =>
        let blanks := r.takeWhile isBlank
        if blanks.isEmpty then none else some (s.take 5 ++ blanks, r.dropWhile isBlank)

/-- A name, an equals sign and a text in braces, with blanks around the sign. -/
def dropAssignment? (opening s : List Char) : Option (Definition × List Char) :=
  let name := s.takeWhile isWord
  let s := s.dropWhile isWord
  let blanks := s.takeWhile isBlank
  match name, s.dropWhile isBlank with
  | _ :: _, '=' :: s =>
    let blanks' := s.takeWhile isBlank
    match s.dropWhile isBlank with
    | '{' :: s =>
      let body := s.takeWhile (· != '}')
      match s.dropWhile (· != '}') with
      | '}' :: rest =>
        some (⟨name, body, opening ++ name ++ blanks ++ '=' :: blanks' ++ '{' :: body ++ ['}']⟩,
          rest)
      | _ => none
    | _ => none
  | _, _ => none

/-- Reads a definition off the front of a text. -/
def read? (before : Bool) (s : List Char) : Option (Definition × List Char) :=
  match dropOpening? before s with
  | some (opening, r) => dropAssignment? opening r
  | none => none

theorem dropOpening?_eq {before : Bool} {s o r : List Char}
    (h : dropOpening? before s = some (o, r)) : s = o ++ r := by
  unfold dropOpening? at h
  split at h
  case h_1 => cases h; rfl
  case h_2 =>
    split at h
    case isTrue => simp at h
    case isFalse =>
      split at h
      case h_1 => simp at h
      case h_2 t ht =>
        dsimp only at h
        split at h
        case isTrue => simp at h
        case isFalse =>
          cases h
          rw [List.append_assoc, List.takeWhile_append_dropWhile]
          have hd : t = s.drop 5 := dropKeyword?_eq_drop ht
          rw [hd, List.take_append_drop]

theorem dropAssignment?_eq {o s r : List Char} {d : Definition}
    (h : dropAssignment? o s = some (d, r)) : o ++ s = d.written ++ r := by
  unfold dropAssignment? at h
  dsimp only at h
  split at h
  case h_2 => simp at h
  case h_1 c name s₁ hn hs₁ =>
    split at h
    case h_2 => simp at h
    case h_1 s₂ hs₂ =>
      split at h
      case h_2 => simp at h
      case h_1 s₃ hs₃ =>
        cases h
        have e₁ := s.takeWhile_append_dropWhile (p := isWord)
        have e₂ := (s.dropWhile isWord).takeWhile_append_dropWhile (p := isBlank)
        have e₃ := s₁.takeWhile_append_dropWhile (p := isBlank)
        have e₄ := s₂.takeWhile_append_dropWhile (p := (· != '}'))
        rw [hs₁] at e₂
        rw [hs₂] at e₃
        rw [hs₃] at e₄
        simp only [List.append_assoc, List.cons_append, List.nil_append, e₄, e₃, e₂, e₁]

/-- A definition was read off the front. -/
theorem read?_eq {before : Bool} {s r : List Char} {d : Definition}
    (h : read? before s = some (d, r)) : s = d.written ++ r := by
  unfold read? at h
  split at h
  case h_1 o t ht => rw [dropOpening?_eq ht, dropAssignment?_eq h]
  case h_2 => simp at h

theorem written_ne_nil {before : Bool} {s r : List Char} {d : Definition}
    (h : read? before s = some (d, r)) : d.written ≠ [] := by
  unfold read? at h
  split at h
  case h_1 o t ht =>
    unfold dropAssignment? at h
    dsimp only at h
    repeat' split at h
    all_goals first | (simp at h; done) | (cases h; simp)
  case h_2 => simp at h

/-- Finds definitions. -/
def recogniser : Recogniser Definition where
  read? := read?
  shortens h := by
    have hne := List.length_pos_iff.2 (written_ne_nil h)
    rw [read?_eq h, List.length_append]
    omega

/-- The fragment that a definition stands for: its words with single spaces between them. -/
def fragment (d : Definition) : List Char := joinWith [' '] (words d.body)

/-- What a definition leaves behind, so that the lines after it keep their numbers. -/
def residue (d : Definition) : List Char := d.written.filter (· == '\n')

end Definition

/-- A reference to a fragment, as it is written. -/
structure Reference where
  /-- The name. -/
  name : List Char
  /-- The shift behind it, or nothing. -/
  shift : List Char
  deriving DecidableEq, Repr

namespace Reference

/-- The sign `c` at the front of a text, if it is there, and the rest. -/
def splitSign (c : Char) : List Char → List Char × List Char
  | [] => ([], [])
  | d :: s => if d = c then ([d], s) else ([], d :: s)

/-- A shift at the front of a text and the rest: `+2`, `-2`, `+-2` or `2`. -/
def splitShift (s : List Char) : List Char × List Char :=
  let plus := splitSign '+' s
  let minus := splitSign '-' plus.2
  let ds := minus.2.takeWhile isDigit
  if ds.isEmpty then ([], s) else (plus.1 ++ (minus.1 ++ ds), minus.2.dropWhile isDigit)

/-- Reads a reference off the front of a text. -/
def read? : List Char → Option (Reference × List Char)
  | '$' :: s =>
    let name := s.takeWhile isWord
    let (shift, rest) := splitShift (s.dropWhile isWord)
    if name.isEmpty then none else some (⟨name, shift⟩, rest)
  | _ => none

theorem splitSign_eq (c : Char) (s : List Char) : (splitSign c s).1 ++ (splitSign c s).2 = s := by
  cases s with
  | nil => rfl
  | cons d s => by_cases h : d = c <;> simp [splitSign, h]

theorem splitShift_eq (s : List Char) : (splitShift s).1 ++ (splitShift s).2 = s := by
  unfold splitShift
  dsimp only
  split
  case isTrue => rfl
  case isFalse =>
    simp only [List.append_assoc, List.takeWhile_append_dropWhile, splitSign_eq]

/-- A reference was read off the front. -/
theorem read?_eq {s r : List Char} {x : Reference} (h : read? s = some (x, r)) :
    s = '$' :: (x.name ++ (x.shift ++ r)) := by
  unfold read? at h
  split at h
  case h_1 s =>
    dsimp only at h
    split at h
    case isTrue => simp at h
    case isFalse =>
      cases h
      rw [splitShift_eq, List.takeWhile_append_dropWhile]
  case h_2 => simp at h

/-- Finds references. -/
def recogniser : Recogniser Reference where
  read? _ s := read? s
  shortens h := by
    rw [read?_eq h]
    simp
    omega

end Reference

/-! ### The table of fragments

The text of a reference and what is wrong with it are two lookups in the same table: a reference
without definition becomes nothing and is a problem; one with a shift becomes its fragment and is a
problem too, if a mild one. -/

/-- Fragments by name, in order of first definition. -/
abbrev Table := OrderedMap String

namespace Table

/-- The table with one more definition; the last one of a name counts. -/
def define (t : Table) (d : Definition) : Table :=
  t.put (String.ofList d.name) (String.ofList d.fragment)

/-- The definitions in a text. -/
def definitions (s : List Char) : List Definition := found (Definition.recogniser.pieces s)

/-- A text without its definitions, and the table with them. -/
def collect (t : Table) (s : List Char) : List Char × Table :=
  let ps := Definition.recogniser.pieces s
  (fill Definition.residue ps, (found ps).foldl define t)

/-- What is put in for a reference. -/
def fragment (t : Table) (r : Reference) : List Char :=
  ((t.get? (String.ofList r.name)).map String.toList).getD []

/-- What is wrong with a reference. -/
def problem? (t : Table) (r : Reference) : Option Problem :=
  let name := String.ofList r.name
  if !t.contains name then some (.undefinedMacro name)
  else if r.shift.isEmpty then none
  else some (.shiftIgnored name)

/-- A text with fragments in place of the references, and the problems with those. -/
def expand (t : Table) (s : List Char) : List Char × List Problem :=
  let ps := Reference.recogniser.pieces s
  (fill t.fragment ps, (found ps).filterMap t.problem?)

/-- A call of the expansion.  A caller who gives a reporter is told of the problems, in order; one
who gives none is told of nothing. -/
def expandFor {ν : Type} (t : Table) (reporter? : Option (Problem → Noted ν Unit))
    (s : List Char) : Noted ν (List Char) := do
  let (text, problems) := t.expand s
  match reporter? with
  | some report => problems.forM report
  | none => pure ()
  return text

end Table

end TextScore.Macro
