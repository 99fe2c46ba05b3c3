import TextScore.Number.Numeral

/-!
# Reading JSON text

A reader of standard JSON text that knows nothing of how the text is written.  White space may stand
around every value, name and mark; strings may use all escapes, surrogate pairs among them; names
are read in the order in which they stand.  A number without fraction and exponent is an integer,
any other number is kept as it is printed.

That a text can be read back says more, the less the reader has in common with the writer.  This one
follows the standard.  It takes texts that are never written, and it refuses texts that a writer
with a mistake might write: a name of a double that is not finite, a control character inside a
string, a comma too many, a number with a zero in front, anything behind the value.

A value stands at the front of a text, and reading it gives the value and the rest.  What makes this
end is that the rest is shorter, so each reader comes with a lemma on lengths.  Values and their
parts are read by two functions that call each other: `readParts?` goes on at the same text if a
part of a sequence is read, which has no name in front of it, so the text gets no shorter there, and
the measure has a second component.  Sequences and values by name have the same form but for their
marks and the names, so there is one reader for both (`Container`).

## What is here

* `Datum` — a value that is read.
* `ofNumeral?` — a number, from its text.
* `readChars?` — the characters of a string, up to the closing quote.
* `readValue?` — a value, from the front of a text.
* `read?` — a text that is one value.

Numbers with a fraction or an exponent are not turned to doubles.  Their digits are found by a
search for a decimal that reads as the double, and that search is not gone into here.
-/

set_option autoImplicit false

namespace TextScore.Json

open Number

/-- A value that is read from JSON text. -/
inductive Datum
  /-- Nothing. -/
  | null
  /-- A truth value. -/
  | bool (value : Bool)
  /-- A number without fraction and exponent. -/
  | int (value : Int)
  /-- Another number, as it is printed. -/
  | decimal (text : List Char)
  /-- A text. -/
  | str (value : List Char)
  /-- A sequence. -/
  | arr (items : List Datum)
  /-- Values by name, in order. -/
  | obj (fields : List (List Char × Datum))
  deriving Inhabited, Repr

/-! ## White space

Four characters are white space to JSON, no others. -/

/-- White space of JSON. -/
def isSpace (c : Char) : Bool := c == ' ' || c == '\t' || c == '\n' || c == '\r'

/-- A text from its first character that is no white space. -/
def skipSpace (s : List Char) : List Char := s.dropWhile isSpace

theorem skipSpace_length_le (s : List Char) : (skipSpace s).length ≤ s.length :=
  (List.dropWhile_suffix isSpace).length_le

/-! ## Numbers

The text of a number is taken first, and looked at as a whole. -/

/-- A character of numbers. -/
def isNumberChar (c : Char) : Bool :=
  c.isDigit || c == '-' || c == '+' || c == '.' || c == 'e' || c == 'E'

/-- Some digits are a whole number if there is no zero in front of others. -/
def isWhole : List Char → Bool
  | [] => false
  | [_] => true
  | d :: _ => d != '0'

/-- An exponent, or nothing. -/
def isExponent : List Char → Bool
  | [] => true
  | c :: s =>
    (c == 'e' || c == 'E') && !(dropSign s).2.isEmpty && (dropSign s).2.all Char.isDigit

/-- A fraction and an exponent, or one of them, or nothing. -/
def isFraction : List Char → Bool
  | '.' :: s => !(s.takeWhile Char.isDigit).isEmpty && isExponent (s.dropWhile Char.isDigit)
  | s => isExponent s

/-- A text without the minus sign in front. -/
def dropMinus : List Char → List Char
  | '-' :: s => s
  | s => s

/-- The number of a text. -/
def ofNumeral? (text : List Char) : Option Datum :=
  let whole := (dropMinus text).takeWhile Char.isDigit
  let rest := (dropMinus text).dropWhile Char.isDigit
  if isWhole whole && isFraction rest then
    if rest.isEmpty then
      some (.int (if text.head? = some '-' then -digitsValue whole else digitsValue whole))
    else some (.decimal text)
  else none

/-- Reads a number, which goes on as long as there are characters of numbers. -/
def readNumber? (s : List Char) : Option (Datum × List Char) :=
  (ofNumeral? (s.takeWhile isNumberChar)).map fun d ↦ (d, s.dropWhile isNumberChar)

/-! ## Strings

A character may stand for itself, it may have an escape of two characters, or be given by its number
in hexadecimal digits. -/

/-- The value of a hexadecimal digit. -/
def hexValue? (c : Char) : Option Nat :=
  if c.isDigit then some (c.toNat - 48)
  else if 'a' ≤ c && c ≤ 'f' then some (c.toNat - 87)
  else if 'A' ≤ c && c ≤ 'F' then some (c.toNat - 55)
  else none

/-- Reads four hexadecimal digits. -/
def readUnit? : List Char → Option (Nat × List Char)
  | a :: b :: c :: d :: s => do
    let a ← hexValue? a
    let b ← hexValue? b
    let c ← hexValue? c
    let d ← hexValue? d
    return (((a * 16 + b) * 16 + c) * 16 + d, s)
  | _ => none

/-- Reads a character by its number, behind `\u`.  Characters beyond the first plane have two
numbers, the second one behind another `\u`. -/
def readCodePoint? (s : List Char) : Option (Char × List Char) := do
  let (n, s) ← readUnit? s
  if 0xD800 ≤ n ∧ n < 0xDC00 then
    match s with
    | '\\' :: 'u' :: s => do
      let (m, s) ← readUnit? s
      if 0xDC00 ≤ m ∧ m < 0xE000 then
        return (Char.ofNat (0x10000 + (n - 0xD800) * 0x400 + (m - 0xDC00)), s)
      else none
    | _ => none
  else if 0xDC00 ≤ n ∧ n < 0xE000 then none
  else return (Char.ofNat n, s)

/-- The characters with an escape of their own. -/
def escapes : List (Char × Char) :=
  [('"', '"'), ('\\', '\\'), ('/', '/'), ('b', '\x08'), ('f', '\x0c'), ('n', '\n'), ('r', '\r'),
    ('t', '\t')]

/-- Reads a character of a string. -/
def readChar? : List Char → Option (Char × List Char)
  | '\\' :: 'u' :: s => readCodePoint? s
  | '\\' :: c :: s => (escapes.lookup c).map fun d ↦ (d, s)
  | c :: s => if c = '\\' ∨ c.toNat < 0x20 then none else some (c, s)
  | [] => none

theorem readUnit?_length {s r : List Char} {n : Nat} (h : readUnit? s = some (n, r)) :
    r.length < s.length := by
  rw [readUnit?.eq_def] at h
  split at h
  case h_1 =>
    obtain ⟨_, -, h⟩ := Option.bind_eq_some_iff.mp h
    obtain ⟨_, -, h⟩ := Option.bind_eq_some_iff.mp h
    obtain ⟨_, -, h⟩ := Option.bind_eq_some_iff.mp h
    obtain ⟨_, -, h⟩ := Option.bind_eq_some_iff.mp h
    cases h
    simp only [List.length_cons]
    omega
  case h_2 => cases h

theorem readCodePoint?_length {s r : List Char} {c : Char} (h : readCodePoint? s = some (c, r)) :
    r.length < s.length := by
  rw [readCodePoint?, Option.bind_eq_bind, Option.bind_eq_some_iff] at h
  obtain ⟨⟨n, s₁⟩, h₁, h⟩ := h
  have e₁ := readUnit?_length h₁
  dsimp only at h
  split at h
  case isTrue =>
    split at h
    case h_1 s₂ =>
      rw [Option.bind_eq_some_iff] at h
      obtain ⟨⟨m, s₃⟩, h₃, h⟩ := h
      have e₃ := readUnit?_length h₃
      dsimp only at h
      split at h
      case isTrue =>
        obtain ⟨-, rfl⟩ := Prod.mk.inj (Option.some.inj h)
        simp only [List.length_cons] at e₁
        omega
      case isFalse => cases h
    case h_2 => cases h
  case isFalse =>
    split at h
    case isTrue => cases h
    case isFalse =>
      obtain ⟨-, rfl⟩ := Prod.mk.inj (Option.some.inj h)
      exact e₁

theorem readChar?_length {s r : List Char} {c : Char} (h : readChar? s = some (c, r)) :
    r.length < s.length := by
  rw [readChar?.eq_def] at h
  split at h
  case h_1 s =>
    have e := readCodePoint?_length h
    simp only [List.length_cons]
    omega
  case h_2 c s _ =>
    obtain ⟨d, -, h⟩ := Option.map_eq_some_iff.mp h
    cases h
    simp only [List.length_cons]
    omega
  case h_3 c s _ _ =>
    split at h
    case isTrue => cases h
    case isFalse =>
      cases h
      exact Nat.lt_succ_self _
  case h_4 => cases h

/-- Reads the characters of a string, up to the quote that closes it. -/
def readChars? (s : List Char) : Option (List Char × List Char) :=
  match s with
  | [] => none
  | c :: r =>
    if c = '"' then some ([], r)
    else
      match _h : readChar? (c :: r) with
      | none => none
      | some (d, r) => (readChars? r).map fun p ↦ (d :: p.1, p.2)
termination_by s.length
decreasing_by exact readChar?_length _h

theorem readChars?_length {s r cs : List Char} (h : readChars? s = some (cs, r)) :
    r.length < s.length := by
  induction hn : s.length using Nat.strongRecOn generalizing s cs with
  | ind n ih =>
    subst hn
    cases s with
    | nil =>
      rw [readChars?] at h
      cases h
    | cons c s =>
      rw [readChars?] at h
      split at h
      case isTrue =>
        cases h
        exact Nat.lt_succ_self _
      case isFalse =>
        split at h
        case h_1 => cases h
        case h_2 d s' hchar =>
          obtain ⟨p, hp, h⟩ := Option.map_eq_some_iff.mp h
          cases h
          have e := readChar?_length hchar
          exact Nat.lt_trans (ih _ e hp rfl) e

/-! ## Values

The words, strings and numbers are read without recursion. -/

/-- The words that are values. -/
def wordValues : List (List Char × Datum) :=
  [("null".toList, .null), ("true".toList, .bool true), ("false".toList, .bool false)]

/-- Reads a value without parts. -/
def readScalar? (s : List Char) : Option (Datum × List Char) :=
  match s with
  | '"' :: s => (readChars? s).map fun p ↦ (.str p.1, p.2)
  | s =>
    match wordValues.find? fun w ↦ w.1.isPrefixOf s with
    | some w => some (w.2, s.drop w.1.length)
    | none => readNumber? s

/-- What has parts. -/
inductive Container
  /-- A sequence. -/
  | array
  /-- Values by name. -/
  | object

namespace Container

/-- The opening mark. -/
def opening : Container → Char
  | array => '['
  | object => '\x7b'

/-- The closing mark. -/
def closing : Container → Char
  | array => ']'
  | object => '\x7d'

/-- What a mark opens. -/
def ofOpening? (c : Char) : Option Container := [array, object].find? fun k ↦ c == k.opening

/-- The value with the given parts; those of a sequence have no names. -/
def datum : Container → List (List Char × Datum) → Datum
  | array, parts => .arr (parts.map Prod.snd)
  | object, parts => .obj parts

/-- Reads what stands in front of a part: its name and a colon, but nothing in a sequence. -/
def readName? : Container → List Char → Option (List Char × List Char)
  | array, s => some ([], s)
  | object, '"' :: s => do
    let (name, s) ← readChars? s
    match skipSpace s with
    | ':' :: s => some (name, skipSpace s)
    | _ => none
  | object, _ => none

theorem readName?_length {k : Container} {s r name : List Char}
    (h : k.readName? s = some (name, r)) : r.length ≤ s.length := by
  rw [readName?.eq_def] at h
  split at h
  case h_1 =>
    cases h
    exact Nat.le_refl _
  case h_2 s =>
    obtain ⟨⟨name', s'⟩, hchars, h⟩ := Option.bind_eq_some_iff.mp h
    have e := readChars?_length hchars
    have e' := skipSpace_length_le s'
    dsimp only at h
    split at h
    case h_1 t ht =>
      cases h
      have e'' := skipSpace_length_le t
      simp only [ht, List.length_cons] at e' ⊢
      omega
    case h_2 => cases h
  case h_3 => cases h

end Container

mutual

/-- Reads a value off the front of a text that starts with no white space. -/
def readValue? (s : List Char) : Option (Datum × List Char) :=
  match s with
  | [] => none
  | c :: inner =>
    match Container.ofOpening? c with
    | none => readScalar? (c :: inner)
    | some k =>
      match _h : skipSpace inner with
      | [] => none
      | d :: r =>
        if d = k.closing then some (k.datum [], r)
        else (readParts? k (d :: r)).map fun p ↦ (k.datum p.1, p.2)
termination_by (s.length, 0)
decreasing_by
  have hle := skipSpace_length_le inner
  rw [_h] at hle
  exact .left _ _ (Nat.lt_succ_of_le hle)

/-- Reads parts and commas between them, up to the closing mark.  What is left of a text when a part
has been read is always shorter than the text; it is asked for to make the reading end. -/
def readParts? (k : Container) (s : List Char) : Option (List (List Char × Datum) × List Char) :=
  match _h : k.readName? s with
  | none => none
  | some (name, s₁) =>
    match readValue? s₁ with
    | none => none
    | some (d, s₂) =>
      match skipSpace s₂ with
      | [] => none
      | c :: r =>
        if c = k.closing then some ([(name, d)], r)
        else if _h : c = ',' ∧ r.length < s.length then
          (readParts? k (skipSpace r)).map fun p ↦ ((name, d) :: p.1, p.2)
        else none
termination_by (s.length, 1)
decreasing_by
  · obtain hlt | heq := Nat.lt_or_eq_of_le (Container.readName?_length _h)
    · exact .left _ _ hlt
    · rw [heq]
      exact .right _ Nat.zero_lt_one
  · exact .left _ _ (Nat.lt_of_le_of_lt (skipSpace_length_le r) _h.2)

end

/-- Reads a text that is one value. -/
def read? (s : List Char) : Option Datum :=
  match readValue? (skipSpace s) with
  | some (d, r) => if (skipSpace r).isEmpty then some d else none
  | none => none

end TextScore.Json
