import TextScore.Text.Table

/-!
# Characters, words and keywords

The classes of characters on which the notation rests.  Scores may be written in any script, so all
of them are the Unicode classes, version 14, and not those of ASCII: a name may be `Flöte`, a tempo
may be written with Arabic digits, and words may be separated by an ideographic space.

* `isWord` — the characters of a name: letters, numbers and the underscore.
* `digitValue?`, `isDigit` — decimal digits, of any script.
* `isBlank` — the blanks, which separate words.
* `trim`, `words` — a text without the blanks at its ends, and its words.
* `dropKeyword?` — what follows a keyword at the front of a text.
* `quoted` — a text in quotes, as messages show it.

Texts are lists of characters here and wherever something is read, since reading goes from the front
and every reader says what it leaves; strings are for what is kept.
-/

namespace TextScore.Text

/-! ## Word characters

Names of fragments and instruments are words: runs of letters, numbers and underscores. -/

/-- A code point inside one of the ranges. -/
def inRanges (ranges : List (Nat × Nat)) (n : Nat) : Bool :=
  ranges.any fun r ↦ r.1 ≤ n && n ≤ r.2

/-- A letter or a number, of any script. -/
def isAlphanumeric (c : Char) : Bool :=
  if c.toNat < 0x80 then c.isAlphanum else inRanges alphanumericRanges c.toNat

/-- A character of a name. -/
def isWord (c : Char) : Bool := isAlphanumeric c || c == '_'

/-! ## Decimal digits

Every script's decimal digits count: each has ten code points in a row, zero first. -/

/-- The zeros of the decimal digits of Unicode 14 outside ASCII. -/
def digitZeros : List Nat := [
  0x660, 0x6F0, 0x7C0, 0x966, 0x9E6, 0xA66, 0xAE6, 0xB66, 0xBE6, 0xC66, 0xCE6, 0xD66, 0xDE6,
  0xE50, 0xED0, 0xF20, 0x1040, 0x1090, 0x17E0, 0x1810, 0x1946, 0x19D0, 0x1A80, 0x1A90, 0x1B50,
  0x1BB0, 0x1C40, 0x1C50, 0xA620, 0xA8D0, 0xA900, 0xA9D0, 0xA9F0, 0xAA50, 0xABF0, 0xFF10,
  0x104A0, 0x10D30, 0x11066, 0x110F0, 0x11136, 0x111D0, 0x112F0, 0x11450, 0x114D0, 0x11650,
  0x116C0, 0x11730, 0x118E0, 0x11950, 0x11C50, 0x11D50, 0x11DA0, 0x16A60, 0x16AC0, 0x16B50,
  0x1D7CE, 0x1D7D8, 0x1D7E2, 0x1D7EC, 0x1D7F6, 0x1E140, 0x1E2F0, 0x1E950, 0x1FBF0
]

/-- The value of a decimal digit, of any script. -/
def digitValue? (c : Char) : Option Nat :=
  let n := c.toNat
  if 0x30 ≤ n && n ≤ 0x39 then some (n - 0x30)
  else if n < 0x80 then none
  else (digitZeros.find? fun z ↦ z ≤ n && n ≤ z + 9).map (n - ·)

/-- A decimal digit, of any script. -/
def isDigit (c : Char) : Bool := (digitValue? c).isSome

/-- A digit's value is below ten. -/
theorem digitValue?_lt {c : Char} {v : Nat} (h : digitValue? c = some v) : v < 10 := by
  unfold digitValue? at h
  dsimp only at h
  split at h
  case isTrue hc => simp at hc h; omega
  case isFalse =>
    split at h
    case isTrue => simp at h
    case isFalse =>
      obtain ⟨z, hz, rfl⟩ := Option.map_eq_some_iff.1 h
      have := List.find?_some hz
      simp at this
      omega

/-! ## Blank characters, trimming and words

The class of blanks holds the separators of every script and the information separators U+001C to
U+001F, but not the zero width space.  The words of a text are its maximal runs without blanks. -/

/-- A character that separates words. -/
def isBlank (c : Char) : Bool :=
  let n := c.toNat
  (9 ≤ n && n ≤ 13) || (0x1C ≤ n && n ≤ 0x20) || n == 0x85 || n == 0xA0 || n == 0x1680 ||
    (0x2000 ≤ n && n ≤ 0x200A) || n == 0x2028 || n == 0x2029 || n == 0x202F || n == 0x205F ||
    n == 0x3000

/-- The text from its first character that is not blank. -/
def trimStart (s : List Char) : List Char := s.dropWhile isBlank

/-- The text up to its last character that is not blank. -/
def trimEnd (s : List Char) : List Char := (s.reverse.dropWhile isBlank).reverse

/-- The text without the blanks at both ends. -/
def trim (s : List Char) : List Char := trimEnd (trimStart s)

/-- One character more at the front: either it starts or extends the word under way, or it ends
it.  The pair is the word under way and the words after it. -/
def wordStep (c : Char) (p : List Char × List (List Char)) : List Char × List (List Char) :=
  if isBlank c then ([], if p.1.isEmpty then p.2 else p.1 :: p.2) else (c :: p.1, p.2)

/-- The maximal runs of characters that are not blank, in order. -/
def words (s : List Char) : List (List Char) :=
  let p := s.foldr wordStep ([], [])
  if p.1.isEmpty then p.2 else p.1 :: p.2

/-! ### Small lemmas -/

@[simp] theorem words_nil : words [] = [] := rfl

theorem trimStart_length_le (s : List Char) : (trimStart s).length ≤ s.length :=
  (List.dropWhile_suffix isBlank).length_le

theorem trimEnd_length_le (s : List Char) : (trimEnd s).length ≤ s.length := by
  have h := (List.dropWhile_suffix isBlank (l := s.reverse)).length_le
  simpa [trimEnd] using h

theorem trim_length_le (s : List Char) : (trim s).length ≤ s.length :=
  Nat.le_trans (trimEnd_length_le _) (trimStart_length_le s)

theorem mem_of_mem_trim {c : Char} {s : List Char} (h : c ∈ trim s) : c ∈ s := by
  have h₁ := (List.dropWhile_suffix isBlank).subset (List.mem_reverse.1 h)
  exact (List.dropWhile_suffix isBlank).subset (List.mem_reverse.1 h₁)

/-! ## Keywords in any case

The keywords of the notation are written in lower case here and read in any case.  Unicode folds
four more characters onto their letters: the long s, the Turkish dotted and dotless i, and the
Kelvin sign.  Nothing is said about what follows a keyword; whoever reads one asks for a blank, or
for the end of a word, behind it. -/

/-- `c` is a spelling of the lower-case letter `k`. -/
def isSpelling (k c : Char) : Bool :=
  c == k || c == k.toUpper || (k == 's' && c == 'ſ') ||
    (k == 'i' && (c == 'İ' || c == 'ı')) || (k == 'k' && c == '\u212A')

/-- What follows the keyword, if the text starts with a spelling of it. -/
def dropKeyword? : List Char → List Char → Option (List Char)
  | [], s => some s
  | _ :: _, [] => none
  | k :: ks, c :: s => if isSpelling k c then dropKeyword? ks s else none

theorem dropKeyword?_length {k s r : List Char} (h : dropKeyword? k s = some r) :
    r.length + k.length = s.length := by
  fun_induction dropKeyword? k s with
  | case1 s => simp_all
  | case2 => simp at h
  | case3 k ks c s _ ih => simp [← ih h]; omega
  | case4 => simp at h

/-- A keyword is as long as its spelling. -/
theorem dropKeyword?_eq_drop {k s r : List Char} (h : dropKeyword? k s = some r) :
    r = s.drop k.length := by
  fun_induction dropKeyword? k s with
  | case1 s => simp_all
  | case2 => simp at h
  | case3 k ks c s _ ih => simp [ih h]
  | case4 => simp at h

/-! ## Quoted text in messages

A text in quotes with everything in it visible: control characters, blanks other than the space and
unassigned code points are written by number.  The quotes are single ones, unless the text holds
single quotes and no double ones. -/

/-- A character that shows as itself. -/
def isPrintable (c : Char) : Bool :=
  if c.toNat < 0x80 then 0x20 ≤ c.toNat && c.toNat < 0x7F else inRanges printableRanges c.toNat

/-- A number in hexadecimal digits, filled up with zeros. -/
def hexadecimal (width n : Nat) : List Char :=
  let ds := Nat.toDigits 16 n
  List.replicate (width - ds.length) '0' ++ ds

/-- A character inside quotes of the given kind. -/
def quotedChar (quote c : Char) : List Char :=
  if c = quote ∨ c = '\\' then ['\\', c]
  else if c = '\n' then ['\\', 'n']
  else if c = '\r' then ['\\', 'r']
  else if c = '\t' then ['\\', 't']
  else if isPrintable c then [c]
  else if c.toNat < 0x100 then '\\' :: 'x' :: hexadecimal 2 c.toNat
  else if c.toNat < 0x10000 then '\\' :: 'u' :: hexadecimal 4 c.toNat
  else '\\' :: 'U' :: hexadecimal 8 c.toNat

/-- The quote around a text. -/
def quoteFor (s : List Char) : Char := if s.contains '\'' && !s.contains '"' then '"' else '\''

/-- The text in quotes. -/
def quoted (s : String) : String :=
  let q := quoteFor s.toList
  String.ofList (q :: (s.toList.flatMap (quotedChar q) ++ [q]))

end TextScore.Text
