import Mathlib.Tactic.ByContra
import TextScore.Text.Character

/-!
# Classes of characters, and keywords

Scores are read a stretch of characters at a time: blanks, digits, the characters of names,
everything up to a mark.  A stretch of one class ends where a character of another one follows, and
that is only of use if the classes do not meet where the notation needs it.  They are large, since
digits and letters may be of any script, and defined by tables of ranges; that they do not meet is
proved by going through the ranges once.

Keywords are read in any case.  A keyword at the front of a text is no stretch of a class, but it is
part of the first word, and what may follow it is decided there.

## What is here

* `isBlank_of_isWord`, `isBlank_of_isDigit`, `Text.isWord_of_isDigit` — how the classes lie.
* `span_append` — a stretch of a class and what follows.
* `trim_eq_self`, `trim_trim` — texts without blanks at their ends.
* `IsNumeral`, `IsName` — runs of digits and of characters of names.
* `HasWord` — at some place of a text a word begins that is a spelling of a keyword.
* `dropKeyword?_iff`, `any_dropKeyword?` — a keyword at the front is read off the first word.
-/

set_option autoImplicit false

namespace TextScore

open Text

/-! ## Blanks, digits and the characters of names -/

/-! ### Blanks and names -/

/-- The code points of all blanks. -/
def blankPoints : List Nat :=
  [9, 10, 11, 12, 13, 0x1C, 0x1D, 0x1E, 0x1F, 0x20, 0x85, 0xA0, 0x1680, 0x2000, 0x2001, 0x2002,
    0x2003, 0x2004, 0x2005, 0x2006, 0x2007, 0x2008, 0x2009, 0x200A, 0x2028, 0x2029, 0x202F, 0x205F,
    0x3000]

theorem mem_blankPoints {c : Char} (h : isBlank c = true) : c.toNat ∈ blankPoints := by
  simp only [isBlank, Bool.or_eq_true, Bool.and_eq_true, decide_eq_true_eq, beq_iff_eq] at h
  simp only [blankPoints, List.mem_cons, List.not_mem_nil, or_false]
  omega

theorem isWord_blankPoints : ∀ n ∈ blankPoints, isWord (Char.ofNat n) = false := by
  decide +kernel

/-- No character of a name is a blank. -/
theorem isBlank_of_isWord {c : Char} (h : isWord c = true) : isBlank c = false := by
  by_contra hblank
  have hc := isWord_blankPoints c.toNat (mem_blankPoints (Bool.not_eq_false _ ▸ hblank))
  rw [Char.ofNat_toNat, h] at hc
  exact Bool.noConfusion hc

namespace Text

/-- No blank is a character of a name. -/
theorem isWord_of_isBlank {c : Char} (h : isBlank c = true) : isWord c = false := by
  by_contra hword
  rw [isBlank_of_isWord (Bool.not_eq_false _ ▸ hword)] at h
  exact Bool.false_ne_true h

end Text

/-! ### Digits -/

namespace Text

/-- The ten digits of a script stand together among the letters and numbers. -/
theorem digits_alphanumeric : (digitZeros.all fun z ↦ Nat.ble 0x80 z &&
    alphanumericRanges.any fun r ↦ Nat.ble (z + 9) r.2 && Nat.ble r.1 z) = true := by
  decide +kernel

/-- A digit is a character of a name. -/
theorem isWord_of_isDigit {c : Char} (h : isDigit c = true) : isWord c = true := by
  rw [isWord, Bool.or_eq_true]
  refine .inl ?_
  rw [isDigit, digitValue?] at h
  rw [isAlphanumeric]
  split at h
  case isTrue hrange =>
    simp only [Bool.and_eq_true, decide_eq_true_eq] at hrange
    rw [if_pos (by omega), Char.isAlphanum, Bool.or_eq_true]
    refine .inr ?_
    rw [Char.isDigit, Bool.and_eq_true, decide_eq_true_eq, decide_eq_true_eq]
    exact hrange
  split at h
  case isTrue => cases h
  case isFalse hrange =>
    rw [Option.isSome_map] at h
    obtain ⟨z, hz⟩ := Option.isSome_iff_exists.mp h
    have hdigit := List.find?_some hz
    simp only [Bool.and_eq_true, decide_eq_true_eq] at hdigit
    have hblock := List.all_eq_true.mp digits_alphanumeric z (List.mem_of_find?_eq_some hz)
    rw [Bool.and_eq_true, Nat.ble_eq, List.any_eq_true] at hblock
    obtain ⟨hascii, r, hr, hin⟩ := hblock
    rw [Bool.and_eq_true, Nat.ble_eq, Nat.ble_eq] at hin
    rw [if_neg (by omega), inRanges, List.any_eq_true]
    refine ⟨r, hr, ?_⟩
    simp only [Bool.and_eq_true, decide_eq_true_eq]
    omega

end Text

/-- No digit is a blank. -/
theorem isBlank_of_isDigit {c : Char} (h : isDigit c = true) : isBlank c = false :=
  isBlank_of_isWord (isWord_of_isDigit h)

/-! ### Stretches of a class -/

/-- A stretch of a class ends where something else follows. -/
theorem span_append {p : Char → Bool} {s r : List Char} (hs : ∀ c ∈ s, p c = true)
    (hr : ∀ c ∈ r.head?, p c = false) :
    (s ++ r).takeWhile p = s ∧ (s ++ r).dropWhile p = r := by
  rw [List.takeWhile_append_of_pos hs, List.dropWhile_append_of_pos hs]
  cases r with
  | nil => exact ⟨List.append_nil s, rfl⟩
  | cons c r =>
    have hc : ¬p c = true := by
      rw [hr c rfl]
      exact Bool.false_ne_true
    rw [List.takeWhile_cons_of_neg hc, List.dropWhile_cons_of_neg hc, List.append_nil]
    exact ⟨rfl, rfl⟩

/-- What does not go on with the class adds nothing to a stretch of it. -/
theorem takeWhile_append_of_head? {p : Char → Bool} {r : List Char}
    (hr : ∀ c ∈ r.head?, p c = false) (s : List Char) :
    (s ++ r).takeWhile p = s.takeWhile p := by
  induction s with
  | nil => exact (span_append (s := []) (by simp) hr).1
  | cons c s ih => rw [List.cons_append, List.takeWhile_cons, List.takeWhile_cons, ih]

/-- A stretch without a mark ends at the mark. -/
theorem span_until {mark : Char} {s r : List Char} (hs : mark ∉ s) (hr : ∀ c ∈ r.head?, c = mark) :
    (s ++ r).takeWhile (· != mark) = s ∧ (s ++ r).dropWhile (· != mark) = r := by
  refine span_append (fun c hc ↦ ?_) fun c hc ↦ ?_
  · rw [bne_iff_ne]
    rintro rfl
    exact hs hc
  · rw [hr c hc, bne_self_eq_false]

/-! ### Blanks at the ends -/

theorem dropWhile_isBlank_eq_self {s : List Char} (h : ∀ c ∈ s.head?, isBlank c = false) :
    s.dropWhile isBlank = s :=
  (span_append (fun _ hc ↦ absurd hc List.not_mem_nil) h).2

/-- A text that starts and ends with no blank has none to lose. -/
theorem trim_eq_self {s : List Char} (hfirst : ∀ c ∈ s.head?, isBlank c = false)
    (hlast : ∀ c ∈ s.getLast?, isBlank c = false) : trim s = s := by
  rw [trim, trimStart, dropWhile_isBlank_eq_self hfirst, trimEnd, dropWhile_isBlank_eq_self,
    List.reverse_reverse]
  rwa [List.head?_reverse]

theorem isBlank_head?_dropWhile {s : List Char} {c : Char}
    (h : c ∈ (s.dropWhile isBlank).head?) : isBlank c = false := by
  have := List.head?_dropWhile_not isBlank s
  rw [h] at this
  exact this

theorem isBlank_getLast?_trim {s : List Char} {c : Char} (h : c ∈ (trim s).getLast?) :
    isBlank c = false := by
  rw [trim, trimEnd, List.getLast?_reverse] at h
  exact isBlank_head?_dropWhile h

theorem trim_trim (s : List Char) : trim (trim s) = trim s := by
  refine trim_eq_self ?_ (fun c hc ↦ isBlank_getLast?_trim hc)
  intro c hc
  have hprefix : trim s <+: trimStart s := by
    rw [trim, trimEnd]
    have := (List.dropWhile_suffix isBlank (l := (trimStart s).reverse))
    exact List.reverse_suffix.mp (by rwa [List.reverse_reverse])
  obtain ⟨r, hr⟩ := hprefix
  refine isBlank_head?_dropWhile (s := s) ?_
  rw [← trimStart, ← hr]
  cases ht : trim s with
  | nil => rw [ht] at hc; cases hc
  | cons d t => rw [ht] at hc; exact hc

/-- Blanks in front of a text are lost by trimming. -/
theorem trim_blank_append {a : List Char} (ha : ∀ c ∈ a, isBlank c = true) (s : List Char) :
    trim (a ++ s) = trim s := by
  rw [trim, trimStart, List.dropWhile_append_of_pos ha, trim, trimStart]

/-- Blanks behind a text are lost at its end. -/
theorem trimEnd_append_blank {b : List Char} (hb : ∀ c ∈ b, isBlank c = true) (s : List Char) :
    trimEnd (s ++ b) = trimEnd s := by
  rw [trimEnd, List.reverse_append,
    List.dropWhile_append_of_pos fun c hc ↦ hb c (List.mem_reverse.mp hc), trimEnd]

/-- Blanks behind a text are lost by trimming. -/
theorem trim_append_blank {b : List Char} (hb : ∀ c ∈ b, isBlank c = true) (s : List Char) :
    trim (s ++ b) = trim s := by
  rw [trim, trimStart, List.dropWhile_append]
  split
  case isTrue hempty =>
    have hnil : b.dropWhile isBlank = [] := by
      rw [← List.append_nil b, List.dropWhile_append_of_pos hb, List.dropWhile_nil]
    rw [hnil, trim, trimStart, List.isEmpty_iff.mp hempty]
  case isFalse => exact trimEnd_append_blank hb _

/-- Only blanks are lost at the end. -/
theorem exists_trimEnd (s : List Char) :
    ∃ b, s = trimEnd s ++ b ∧ ∀ c ∈ b, isBlank c = true := by
  refine ⟨(s.reverse.takeWhile isBlank).reverse, ?_, fun c hc ↦ ?_⟩
  · rw [trimEnd, ← List.reverse_append, List.takeWhile_append_dropWhile, List.reverse_reverse]
  · exact List.all_eq_true.mp List.all_takeWhile c (List.mem_reverse.mp hc)

theorem trim_trimEnd (s : List Char) : trim (trimEnd s) = trim s := by
  obtain ⟨b, hs, hb⟩ := exists_trimEnd s
  rw [← trim_append_blank hb (trimEnd s), ← hs]

/-! ### Numerals and names -/

/-- A numeral: digits, at least one. -/
structure IsNumeral (n : List Char) : Prop where
  /-- There are digits. -/
  ne_nil : n ≠ []
  /-- All characters are digits. -/
  digit : ∀ c ∈ n, isDigit c = true

instance : DecidablePred IsNumeral := fun n ↦
  decidable_of_iff (n ≠ [] ∧ n.all isDigit = true)
    ⟨fun h ↦ ⟨h.1, List.all_eq_true.mp h.2⟩, fun h ↦ ⟨h.ne_nil, List.all_eq_true.mpr h.digit⟩⟩

/-- A name: characters of names, at least one. -/
structure IsName (n : List Char) : Prop where
  /-- There are characters. -/
  ne_nil : n ≠ []
  /-- All characters are characters of names. -/
  word : ∀ c ∈ n, isWord c = true

instance : DecidablePred IsName := fun n ↦
  decidable_of_iff (n ≠ [] ∧ n.all isWord = true)
    ⟨fun h ↦ ⟨h.1, List.all_eq_true.mp h.2⟩, fun h ↦ ⟨h.ne_nil, List.all_eq_true.mpr h.word⟩⟩

theorem IsNumeral.takeWhile {n : List Char} (hn : IsNumeral n) {s : List Char}
    (hs : ∀ c ∈ s.head?, isDigit c = false) :
    (n ++ s).takeWhile isDigit = n ∧ (n ++ s).dropWhile isDigit = s :=
  span_append hn.digit hs

theorem IsNumeral.isBlank_head? {n : List Char} (hn : IsNumeral n) (s : List Char) :
    ∀ c ∈ (n ++ s).head?, isBlank c = false := by
  intro c hc
  cases n with
  | nil => exact absurd rfl hn.ne_nil
  | cons d n =>
    cases hc
    exact isBlank_of_isDigit (hn.digit c List.mem_cons_self)

/-! ## Keywords at the front of a text -/

theorem dropKeyword?_append (keyword s : List Char) :
    dropKeyword? keyword (keyword ++ s) = some s := by
  induction keyword with
  | nil => rfl
  | cons k ks ih => simp [dropKeyword?, isSpelling, ih]

namespace Text

/-! ### Keywords and words

A letter has more spellings than two: some characters outside ASCII have the same capital or small
form.  So being a spelling of a keyword is a property of a word, to be decided, and not membership
in a list. -/

/-- The word is a spelling of one of the keywords. -/
def spells (keywords : List (List Char)) (word : List Char) : Bool :=
  keywords.any fun k ↦ dropKeyword? k word == some []

/-- At some place of a text a word begins that is a spelling of one of the keywords. -/
def HasWord (keywords : List (List Char)) (s : List Char) : Prop :=
  ∃ i, i < s.length ∧ (s.take i).getLast?.any isWord = false ∧
    spells keywords ((s.drop i).takeWhile isWord) = true

instance (keywords : List (List Char)) (s : List Char) : Decidable (HasWord keywords s) :=
  inferInstanceAs (Decidable (∃ i, i < s.length ∧ _))

theorem hasWord_append {keywords : List (List Char)} {u s : List Char} (hs : s ≠ [])
    (hu : u.getLast?.any isWord = false)
    (hword : spells keywords (s.takeWhile isWord) = true) : HasWord keywords (u ++ s) := by
  refine ⟨u.length, ?_, ?_, ?_⟩
  · simpa [List.length_pos_iff] using hs
  · rwa [List.take_left]
  · rwa [List.drop_left]

/-- A letter of a keyword; in small and in capital form it is a character of a name. -/
def isLetter (a : Char) : Bool := isWord a && isWord a.toUpper

theorem isWord_of_isSpelling {a c : Char} (ha : isLetter a = true) (h : isSpelling a c = true) :
    isWord c = true := by
  have hspecial : isWord 'ſ' = true ∧ isWord 'İ' = true ∧ isWord 'ı' = true ∧
      isWord '\u212A' = true := by decide +kernel
  simp only [isSpelling, Bool.or_eq_true, Bool.and_eq_true, beq_iff_eq] at h
  rw [isLetter, Bool.and_eq_true] at ha
  rcases h with (((rfl | rfl) | ⟨-, rfl⟩) | ⟨-, rfl | rfl⟩) | ⟨-, rfl⟩
  · exact ha.1
  · exact ha.2
  · exact hspecial.1
  · exact hspecial.2.1
  · exact hspecial.2.2.1
  · exact hspecial.2.2.2

/-- A keyword at the front of a text is part of its first word. -/
theorem dropKeyword?_takeWhile {k s r : List Char} (hk : k.all isLetter = true)
    (h : dropKeyword? k s = some r) :
    dropKeyword? k (s.takeWhile isWord) = some (r.takeWhile isWord) ∧
      s.dropWhile isWord = r.dropWhile isWord := by
  induction k generalizing s with
  | nil =>
    cases h
    exact ⟨rfl, rfl⟩
  | cons a k ih =>
    rw [List.all_cons, Bool.and_eq_true] at hk
    cases s with
    | nil => cases h
    | cons c s =>
      rw [dropKeyword?] at h
      split at h
      case isTrue hspell =>
        have hc := isWord_of_isSpelling hk.1 hspell
        rw [List.takeWhile_cons_of_pos hc, List.dropWhile_cons_of_pos hc, dropKeyword?,
          if_pos hspell]
        exact ih hk.2 h
      case isFalse => cases h

theorem dropKeyword?_append_right {k s r : List Char} (h : dropKeyword? k s = some r)
    (t : List Char) : dropKeyword? k (s ++ t) = some (r ++ t) := by
  induction k generalizing s with
  | nil =>
    cases h
    rfl
  | cons a k ih =>
    cases s with
    | nil => cases h
    | cons c s =>
      rw [dropKeyword?] at h
      rw [List.cons_append, dropKeyword?]
      split at h
      case isTrue hspell =>
        rw [if_pos hspell]
        exact ih h
      case isFalse => cases h

/-- What follows the first word of a text does not start with a character of a name. -/
theorem isWord_head?_dropWhile {s : List Char} {c : Char} (h : c ∈ (s.dropWhile isWord).head?) :
    isWord c = false := by
  have hnot := List.head?_dropWhile_not isWord s
  rw [h] at hnot
  exact hnot

/-- A keyword at the front of a text, and nothing of a name behind it, is its first word. -/
theorem dropKeyword?_iff {k s r : List Char} (hk : k.all isLetter = true)
    (hr : ∀ c ∈ r.head?, isWord c = false) :
    dropKeyword? k s = some r ↔
      dropKeyword? k (s.takeWhile isWord) = some [] ∧ s.dropWhile isWord = r := by
  have hends : r.takeWhile isWord = [] ∧ r.dropWhile isWord = r :=
    span_append (fun _ hc ↦ absurd hc List.not_mem_nil) hr
  constructor
  · intro h
    obtain ⟨htake, hdrop⟩ := dropKeyword?_takeWhile hk h
    rw [hends.1] at htake
    rw [hends.2] at hdrop
    exact ⟨htake, hdrop⟩
  · rintro ⟨htake, rfl⟩
    have h := dropKeyword?_append_right htake (s.dropWhile isWord)
    rwa [List.takeWhile_append_dropWhile] at h

/-- Whether a text starts with a keyword that ends in a certain way can be read off its first word
and what follows. -/
theorem any_dropKeyword? {k : List Char} (hk : k.all isLetter = true) {ends : List Char → Bool}
    (hends : ∀ r, ends r = true → ∀ c ∈ r.head?, isWord c = false) (s : List Char) :
    (dropKeyword? k s).any ends =
      (dropKeyword? k (s.takeWhile isWord) == some [] && ends (s.dropWhile isWord)) := by
  rw [Bool.eq_iff_iff, Bool.and_eq_true, beq_iff_eq, Option.any_eq_true]
  constructor
  · rintro ⟨r, hr, hr'⟩
    obtain ⟨htake, hdrop⟩ := (dropKeyword?_iff hk (hends r hr')).mp hr
    exact ⟨htake, hdrop ▸ hr'⟩
  · rintro ⟨htake, hdrop⟩
    exact ⟨_, (dropKeyword?_iff hk fun c hc ↦ isWord_head?_dropWhile hc).mpr ⟨htake, rfl⟩, hdrop⟩

end Text

end TextScore
