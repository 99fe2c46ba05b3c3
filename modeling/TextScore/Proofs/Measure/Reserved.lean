import TextScore.Proofs.Measure.Assignment
import TextScore.Proofs.Text.Class

/-!
# Names that are keywords

A staff line starts with the name of an instrument.  If that name is a keyword the line is not read
as a staff line but as what the keyword says.  This is the only way in which a staff line can be
taken for something else.

There are two kinds of keywords.  Those of directives are words of their own, and a colon behind
them is no part of a word; so `time: c4` is a directive.  Those of declarations have a blank behind
them, and a staff line has one there only if its first name is followed by blanks: `d : c4` is a
declaration line and `d: c4` is not.  A measure header needs a digit where a staff line has a colon
or a comma, and the two cannot be confused.

* `isReserved` — a line starts with a word that is taken for a keyword.
* `Assignment.isReserved_eq` — a staff line is taken for something else just if it does so.
-/

set_option autoImplicit false

namespace TextScore

open Text

/-! ## Lines that start with a keyword -/

/-- The keywords that are words of their own. -/
def keywords : List (List Char) := directiveKeywords ++ ["instruction".toList]

/-- The keywords that have a blank behind them. -/
def declarators : List (List Char) := ["group".toList, "def".toList, "d".toList]

/-- The first word of the line is taken for a keyword. -/
def isReserved (line : List Char) : Bool :=
  spells keywords (line.takeWhile isWord) ||
    spells declarators (line.takeWhile isWord) && (line.dropWhile isWord).head?.any isBlank

theorem isLetter_keywords : ∀ k ∈ keywords ++ declarators, k.all isLetter = true := by
  decide +kernel

theorem startsWithKeyword_eq {k : List Char} (hk : k.all isLetter = true) (line : List Char) :
    startsWithKeyword line k = (dropKeyword? k (line.takeWhile isWord) == some []) := by
  have hends (r : List Char) (hr : MetaBlock.endsWord r = true) :
      ∀ c ∈ r.head?, isWord c = false := by
    intro c hc
    rw [MetaBlock.endsWord, hc, Option.any_some, Bool.not_eq_true'] at hr
    exact hr
  have hrest : MetaBlock.endsWord (line.dropWhile isWord) = true := by
    rw [MetaBlock.endsWord, Bool.not_eq_true', Option.any_eq_false]
    intro c hc
    rw [isWord_head?_dropWhile hc]
  rw [startsWithKeyword, any_dropKeyword? hk hends, hrest, Bool.and_true]

theorem any_startsWithKeyword {ks : List (List Char)} (hks : ∀ k ∈ ks, k.all isLetter = true)
    (line : List Char) : ks.any (startsWithKeyword line) = spells ks (line.takeWhile isWord) := by
  induction ks with
  | nil => rfl
  | cons k ks ih =>
    rw [List.any_cons, startsWithKeyword_eq (hks k List.mem_cons_self),
      ih fun k' hk' ↦ hks k' (List.mem_cons_of_mem k hk')]
    rfl

theorem any_blank_eq {k : List Char} (hk : k.all isLetter = true) (line : List Char) :
    ((dropKeyword? k line).any fun r ↦ r.head?.any isBlank) =
      (dropKeyword? k (line.takeWhile isWord) == some [] &&
        (line.dropWhile isWord).head?.any isBlank) := by
  refine any_dropKeyword? hk ?_ line
  intro r hr c hc
  rw [hc, Option.any_some] at hr
  exact isWord_of_isBlank hr

/-- A line is left to the declarations if it starts with one of their keywords or is a closing
brace. -/
theorem isDeclarationLine_eq (line : List Char) :
    isDeclarationLine line =
      (spells declarators (line.takeWhile isWord) && (line.dropWhile isWord).head?.any isBlank ||
        startsWithKeyword line "instruction".toList || line == ['}']) := by
  have hstarts : startsDeclaration line =
      (((dropKeyword? "def".toList line).any fun r ↦ r.head?.any isBlank) ||
        (dropKeyword? "d".toList line).any fun r ↦ r.head?.any isBlank) := by
    rw [startsDeclaration, startsDef]
    cases dropKeyword? "def".toList line <;> cases dropKeyword? "d".toList line <;> rfl
  have hletter := isLetter_keywords
  rw [List.forall_mem_append] at hletter
  simp only [declarators, List.forall_mem_cons] at hletter
  obtain ⟨-, hgroup, hdef, hd, -⟩ := hletter
  rw [isDeclarationLine, hstarts, any_blank_eq hgroup, any_blank_eq hdef, any_blank_eq hd, spells,
    declarators, List.any_cons, List.any_cons, List.any_cons, List.any_nil]
  cases (line.dropWhile isWord).head?.any isBlank
  · simp only [Bool.and_false, Bool.false_or]
  · simp only [Bool.and_true, Bool.or_false]
    ac_rfl

namespace Assignment

variable {line : List Char} {s : Assignment}

/-- What stands at the front of a staff line: a name, blanks, and a colon or a comma. -/
theorem readIds?_front {t : List Char} {p : List (List Char) × List Char}
    (h : readIds? t = some p) :
    t.takeWhile isWord ≠ [] ∧
      ∃ c r, (t.dropWhile isWord).dropWhile isBlank = c :: r ∧ (c = ':' ∨ c = ',') := by
  rw [readIds?] at h
  dsimp only at h
  split at h
  case isTrue => cases h
  case isFalse hne =>
    refine ⟨fun hnil ↦ hne (List.isEmpty_iff.mpr hnil), ?_⟩
    split at h
    case h_1 r hr => exact ⟨':', r, hr, .inl rfl⟩
    case h_2 r hr => exact ⟨',', r, hr, .inr rfl⟩
    case h_3 => cases h

/-- A staff line does not consist of a time signature. -/
theorem isFraction_front {t : List Char} {c : Char} {r : List Char}
    (h : (t.dropWhile isWord).dropWhile isBlank = c :: r) (hc : c = ':' ∨ c = ',') :
    isFraction t = false := by
  have hnone : readFraction? t = none := by
    rw [readFraction?]
    dsimp only
    split
    case isTrue => rfl
    case isFalse hdigits =>
      split
      case h_2 => rfl
      case h_1 r' hr' =>
        -- Behind the digits no word goes on, since a blank or the slash follows.
        have hslash : (t.dropWhile isDigit).dropWhile isWord = t.dropWhile isDigit := by
          cases hrest : t.dropWhile isDigit with
          | nil => rfl
          | cons d u =>
            rw [hrest] at hr'
            refine List.dropWhile_cons_of_neg ?_
            by_cases hblank : isBlank d = true
            · rw [isWord_of_isBlank hblank]
              exact Bool.false_ne_true
            · rw [List.dropWhile_cons_of_neg hblank] at hr'
              cases hr'
              decide +kernel
        have hword : t.dropWhile isWord = t.dropWhile isDigit := by
          have hall : ∀ d ∈ t.takeWhile isDigit, isWord d = true := fun d hd ↦
            isWord_of_isDigit (List.all_eq_true.mp List.all_takeWhile d hd)
          have hsplit : (t.takeWhile isDigit ++ t.dropWhile isDigit).dropWhile isWord = _ :=
            List.dropWhile_append_of_pos hall
          rwa [List.takeWhile_append_dropWhile, hslash] at hsplit
        rw [hword, hr'] at h
        cases h
        rcases hc with hc | hc <;> exact absurd hc (by decide)
  rw [isFraction, hnone]

/-- A staff line is no measure header. -/
theorem readHeader?_front {t : List Char} {c : Char} {r : List Char}
    (h : (t.dropWhile isWord).dropWhile isBlank = c :: r) (hc : c = ':' ∨ c = ',') :
    MeasureHeader.read? t = none := by
  have hnot : isDigit c = false := by
    rcases hc with rfl | rfl <;> decide +kernel
  -- Behind the keyword and the blanks there is the colon or the comma, not a number.
  have hkeyword {k u : List Char} (hk : k.all isLetter = true)
      (hu : (dropKeyword? k t).bind dropBlanks? = some u) : u = c :: r := by
    obtain ⟨v, hv, hu⟩ := Option.bind_eq_some_iff.mp hu
    rw [dropBlanks?] at hu
    split at hu
    case isFalse => cases hu
    case isTrue hblank =>
      cases hu
      have hword : ∀ d ∈ v.head?, isWord d = false := by
        intro d hd
        rw [hd, Option.any_some] at hblank
        exact isWord_of_isBlank hblank
      obtain ⟨-, hdrop⟩ := (dropKeyword?_iff hk hword).mp hv
      rwa [hdrop] at h
  rw [MeasureHeader.read?, MeasureHeader.front?]
  cases hu : MeasureHeader.dropKeyword t with
  | none => rfl
  | some u =>
    have hu' : u = c :: r := by
      rw [MeasureHeader.dropKeyword] at hu
      rcases Option.or_eq_some_iff.mp hu with hu | ⟨-, hu⟩
      · exact hkeyword (by decide +kernel) hu
      · exact hkeyword (by decide +kernel) hu
    rw [hu', Option.bind_eq_bind, Option.bind_some,
      List.takeWhile_cons_of_neg (by rw [hnot]; exact Bool.false_ne_true)]
    rfl

/-- A staff line is taken for a directive or a declaration just if its first name is a keyword, and
it is never taken for a measure header. -/
theorem isReserved_eq (htrim : trim line = line) (h : read? line = some s) :
    (isDirective line || isDeclarationLine line) = isReserved line ∧
      MeasureHeader.read? line = none := by
  rw [read?, htrim] at h
  cases hids : readIds? line with
  | none =>
    rw [hids] at h
    cases h
  | some p =>
    obtain ⟨hne, c, r, hfront, hc⟩ := readIds?_front hids
    refine ⟨?_, readHeader?_front hfront hc⟩
    have hhead : ∀ d ∈ line.head?, isWord d = true := by
      intro d hd
      by_contra hword
      cases line with
      | nil => cases hd
      | cons d' line =>
        cases hd
        exact hne (List.takeWhile_cons_of_neg hword)
    -- a name in front excludes the forms that start with a mark
    have hat : (line.head? == some '@') = false := by
      rw [beq_eq_false_iff_ne]
      intro hat
      have hword := hhead '@' hat
      revert hword
      decide +kernel
    have hbrace : (line == ['}']) = false := by
      rw [beq_eq_false_iff_ne]
      rintro rfl
      have hword := hhead '}' rfl
      revert hword
      decide +kernel
    have hletter := isLetter_keywords
    rw [List.forall_mem_append, keywords, List.forall_mem_append, List.forall_mem_singleton]
      at hletter
    rw [isDirective, any_startsWithKeyword hletter.1.1, hat, isFraction_front hfront hc,
      isDeclarationLine_eq, hbrace, startsWithKeyword_eq hletter.1.2, isReserved, keywords, spells,
      spells, spells, List.any_append, List.any_cons, List.any_nil]
    simp only [Bool.or_false]
    ac_rfl

end Assignment

end TextScore
