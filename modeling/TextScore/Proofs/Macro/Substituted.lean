import Mathlib.Data.List.Basic
import TextScore.Macro
import TextScore.Proofs.Text.Class
import TextScore.Proofs.Text.Scan

/-!
# References are put in for

Expansion is a substitution: what is not a reference is left as it is, and every reference becomes
what is stored under its name, as it is stored.  A shift changes nothing but the reports.

To say this of a text one has to say where its references are.  Here the text is given by its parts,
literal texts and references with or without a shift, and the parts are joined.  That the references
of the text are those among its parts is then a condition on neighbours: a literal text has no
dollar sign, and what follows a reference must not be read as part of its name or of its shift.
`Fits` is that condition.  It allows parts to touch, such as a reference right behind another one.

## What is here

* `Macro.Shift`, `Macro.Part` — a shift; a literal text, or a reference.
* `Macro.Part.Fits` — nothing that follows a reference goes on with it.
* `Macro.pieces_content` — the references are the occurrences in a text.
* `Macro.Table.expand_content` — the text and the reports of an expansion, part by part.

Substitution is a single pass.  A fragment that looks like a reference is put in as it is stored and
not expanded again, and the witness below has one.
-/

set_option autoImplicit false

namespace TextScore.Macro

open Text

/-! ## Texts with references

The value of a part is what it becomes, its report what is said about it; both are defined part by
part, from the table alone. -/

/-- The signs of a shift. -/
inductive ShiftSign
  /-- Upwards. -/
  | plus
  /-- Downwards. -/
  | minus
  /-- Downwards, behind a plus sign. -/
  | plusMinus
  deriving DecidableEq, Repr

/-- The characters of the signs. -/
def ShiftSign.text : ShiftSign → List Char
  | plus => ['+']
  | minus => ['-']
  | plusMinus => ['+', '-']

/-- A shift behind a reference. -/
structure Shift where
  /-- The signs. -/
  sign : ShiftSign
  /-- The digits. -/
  numeral : List Char
  /-- There are digits, and nothing else. -/
  isNumeral : IsNumeral numeral

/-- The characters of a shift. -/
def Shift.text (x : Shift) : List Char := x.sign.text ++ x.numeral

/-- A part of a text. -/
inductive Part
  /-- Text without references. -/
  | literal (text : List Char)
  /-- A reference. -/
  | reference (name : List Char) (shift? : Option Shift)

namespace Part

/-- The characters of a part. -/
def text : Part → List Char
  | literal s => s
  | reference name none => '$' :: name
  | reference name (some x) => '$' :: (name ++ x.text)

/-- The part does not reach into the text behind it. -/
def Fits (rest : List Char) : Part → Prop
  | literal s => '$' ∉ s
  | reference name none =>
    IsName name ∧ (∀ c ∈ rest.head?, isWord c = false) ∧ ∀ x : Shift, ¬x.text <+: rest
  | reference name (some _) => IsName name ∧ ∀ c ∈ rest.head?, isDigit c = false

/-- The part, cut into references and other characters. -/
def pieces : Part → List (Piece Reference)
  | literal s => s.map .plain
  | reference name none => [.found ⟨name, []⟩]
  | reference name (some x) => [.found ⟨name, x.text⟩]

/-- What the part becomes. -/
def value (t : Table) : Part → List Char
  | literal s => s
  | reference name _ =>
    match t.get? (String.ofList name) with
    | none => []
    | some body => body.toList

/-- What is reported about the part. -/
def report? (t : Table) : Part → Option (Problem × Severity)
  | literal _ => none
  | reference name shift? =>
    match t.get? (String.ofList name), shift? with
    | none, _ => some (.undefinedMacro (String.ofList name), .warning)
    | some _, some _ => some (.shiftIgnored (String.ofList name), .info)
    | some _, none => none

/-- The part without its shift. -/
def unshifted : Part → Part
  | literal s => literal s
  | reference name _ => reference name none

end Part

/-- The text with the given parts. -/
def content (ps : List Part) : List Char := ps.flatMap Part.text

/-- No part of a text reaches into the next one. -/
def AllFit : List Part → Prop
  | [] => True
  | p :: ps => p.Fits (content ps) ∧ AllFit ps

/-! ## A part is scanned

A text is scanned from the left, and a reference takes as much as it can.  So each lemma is about a
part in front of a rest into which it does not reach. -/

namespace Reference

theorem splitSign_of_ne {c : Char} {s : List Char} (h : ∀ d ∈ s.head?, d ≠ c) :
    splitSign c s = ([], s) := by
  cases s with
  | nil => rfl
  | cons d s => rw [splitSign, if_neg (h d rfl)]

theorem splitSign_self (c : Char) (s : List Char) : splitSign c (c :: s) = ([c], s) := by
  rw [splitSign, if_pos rfl]

theorem splitSign_fst (c : Char) (s : List Char) :
    (splitSign c s).1 = [] ∨ (splitSign c s).1 = [c] := by
  cases s with
  | nil => exact .inl rfl
  | cons d s =>
    by_cases h : d = c
    · exact .inr (by simp [splitSign, h])
    · exact .inl (by simp [splitSign, h])

/-- A shift is read in front of anything that does not start with a digit. -/
theorem splitShift_text (x : Shift) {r : List Char} (hr : ∀ c ∈ r.head?, isDigit c = false) :
    splitShift (x.text ++ r) = (x.text, r) := by
  obtain ⟨sign, n, hn⟩ := x
  obtain ⟨hdigits, hrest⟩ := hn.takeWhile hr
  have hne : n.isEmpty = false := by simpa using hn.ne_nil
  have hsign : splitSign '+' (n ++ r) = ([], n ++ r) ∧ splitSign '-' (n ++ r) = ([], n ++ r) := by
    obtain ⟨d, n, rfl⟩ := List.exists_cons_of_ne_nil hn.ne_nil
    have hd := hn.digit d List.mem_cons_self
    constructor
    · refine splitSign_of_ne ?_
      rintro _ ⟨⟩ rfl
      exact absurd hd (by decide)
    · refine splitSign_of_ne ?_
      rintro _ ⟨⟩ rfl
      exact absurd hd (by decide)
  have hminus : splitSign '+' ('-' :: (n ++ r)) = ([], '-' :: (n ++ r)) :=
    splitSign_of_ne (by simp)
  cases sign <;>
    simp [splitShift, Shift.text, ShiftSign.text, splitSign_self, hminus, hsign, hdigits, hrest,
      hne]

/-- What starts with neither a shift nor a digit has no shift in front. -/
theorem splitShift_eq_nil {s : List Char} (hword : ∀ c ∈ s.head?, isWord c = false)
    (hshift : ∀ x : Shift, ¬x.text <+: s) : splitShift s = ([], s) := by
  unfold splitShift
  dsimp only
  split
  case isTrue => rfl
  case isFalse hdigits =>
    exfalso
    have hplus := splitSign_eq '+' s
    have hminus := splitSign_eq '-' (splitSign '+' s).2
    generalize (splitSign '-' (splitSign '+' s).2).2 = t at hdigits hminus
    have hn : IsNumeral (t.takeWhile isDigit) :=
      ⟨by simpa using hdigits, List.all_eq_true.mp List.all_takeWhile⟩
    have ht : t.takeWhile isDigit ++ t.dropWhile isDigit = t := List.takeWhile_append_dropWhile
    rw [← hminus, ← ht] at hplus
    rcases splitSign_fst '+' s with hp | hp <;>
      rcases splitSign_fst '-' (splitSign '+' s).2 with hm | hm <;> rw [hp, hm] at hplus
    · -- without a sign, the text would start with a digit
      obtain ⟨d, n, hd⟩ := List.exists_cons_of_ne_nil hn.ne_nil
      have hhead : d ∈ s.head? := by
        rw [← hplus, hd]
        rfl
      have hdigit := isWord_of_isDigit (hn.digit d (hd ▸ List.mem_cons_self))
      rw [hword d hhead] at hdigit
      cases hdigit
    · exact hshift ⟨.minus, _, hn⟩ ⟨_, hplus⟩
    · exact hshift ⟨.plus, _, hn⟩ ⟨_, hplus⟩
    · exact hshift ⟨.plusMinus, _, hn⟩ ⟨_, hplus⟩

/-- A reference is read in front of what does not go on with it. -/
theorem read?_append {name shift r : List Char} (hn : IsName name)
    (hword : ∀ c ∈ (shift ++ r).head?, isWord c = false)
    (hshift : splitShift (shift ++ r) = (shift, r)) :
    read? ('$' :: (name ++ (shift ++ r))) = some (⟨name, shift⟩, r) := by
  obtain ⟨hname, hrest⟩ := span_append hn.word hword
  have hne : name.isEmpty = false := by simpa using hn.ne_nil
  rw [read?]
  dsimp only
  rw [hname, hrest, hshift, hne]
  rfl

theorem anywhere : recogniser.Anywhere := fun _ _ ↦ rfl

theorem read?_eq_none {s : List Char} (h : ∀ c ∈ s.head?, c ≠ '$') : read? s = none := by
  cases s with
  | nil => rfl
  | cons c s =>
    rw [read?]
    rintro s' hs
    exact h c rfl (List.cons.inj hs).1

end Reference

theorem Shift.isWord_head? (x : Shift) (r : List Char) :
    ∀ c ∈ (x.text ++ r).head?, isWord c = false := by
  have hsigns : isWord '+' = false ∧ isWord '-' = false := by decide
  obtain ⟨sign, n, hn⟩ := x
  cases sign
  · simpa [Shift.text, ShiftSign.text] using hsigns.1
  · simpa [Shift.text, ShiftSign.text] using hsigns.2
  · simpa [Shift.text, ShiftSign.text] using hsigns.1

/-- A part is cut as it should be in front of what it does not reach into. -/
theorem pieces_part {p : Part} {rest : List Char} (hp : p.Fits rest) :
    Reference.recogniser.pieces (p.text ++ rest) =
      p.pieces ++ Reference.recogniser.pieces rest := by
  -- a literal has no place for a reference to start, and a reference is read at once
  cases p with
  | literal s =>
    refine Recogniser.pieces_append_of_none Reference.anywhere ?_
    rintro v c w rfl
    refine Reference.read?_eq_none ?_
    rintro _ ⟨⟩ rfl
    exact hp (by simp)
  | reference name shift? =>
    cases shift? with
    | none =>
      obtain ⟨hname, hword, hshift⟩ := hp
      have hread : Reference.read? ('$' :: (name ++ ([] ++ rest))) = some (⟨name, []⟩, rest) :=
        Reference.read?_append hname hword (Reference.splitShift_eq_nil hword hshift)
      exact Recogniser.pieces_of_some hread
    | some x =>
      obtain ⟨hname, hdigit⟩ := hp
      have htext : (Part.reference name (some x)).text ++ rest =
          '$' :: (name ++ (x.text ++ rest)) := by simp [Part.text]
      rw [htext]
      exact Recogniser.pieces_of_some
        (Reference.read?_append hname (x.isWord_head? rest) (Reference.splitShift_text x hdigit))

/-- A text is cut part by part. -/
theorem pieces_content {ps : List Part} (h : AllFit ps) :
    Reference.recogniser.pieces (content ps) = ps.flatMap Part.pieces := by
  induction ps with
  | nil => exact Recogniser.pieces_nil
  | cons p ps ih =>
    have hcontent : content (p :: ps) = p.text ++ content ps := List.flatMap_cons
    rw [hcontent, pieces_part h.1, ih h.2, List.flatMap_cons]

/-! ## The parts of an expansion

Once the pieces of the text are the pieces of its parts, both the text and the reports are computed
part by part. -/

namespace Table

theorem fill_part (t : Table) (p : Part) : fill t.fragment p.pieces = p.value t := by
  have hfragment (name shift : List Char) : fill t.fragment [.found ⟨name, shift⟩] =
      (Part.reference name none).value t := by
    rw [fill_found, fill_nil, List.append_nil, fragment, Part.value]
    cases t.get? (String.ofList name) with
    | none => rfl
    | some body => rfl
  cases p with
  | literal s => exact fill_map_plain _ s
  | reference name shift? =>
    cases shift? with
    | none => exact hfragment name []
    | some x => exact hfragment name x.text

theorem reports_part (t : Table) (p : Part) :
    ((found p.pieces).filterMap t.problem?).map (fun x ↦ (x, x.severity)) =
      (p.report? t).toList := by
  cases p with
  | literal s => rw [Part.pieces, found_map_plain]; rfl
  | reference name shift? =>
    cases shift? with
    | none =>
      cases h : t.get? (String.ofList name) <;>
        simp [Part.pieces, Part.report?, problem?, OrderedMap.contains, h, Problem.severity]
    | some x =>
      have htext : x.text ≠ [] := by
        rw [Shift.text]
        exact fun hnil ↦ x.isNumeral.ne_nil (List.append_eq_nil_iff.mp hnil).2
      cases h : t.get? (String.ofList name) <;>
        simp [Part.pieces, Part.report?, problem?, OrderedMap.contains, h, htext, Problem.severity]

theorem value_unshifted (t : Table) (p : Part) : p.unshifted.value t = p.value t := by
  cases p <;> rfl

/-- **Expansion is substitution.**  In a text no part of which reaches into the next one, literal
texts are left as they are, and every reference becomes what is stored under its name, as it is
stored, or nothing.  What is reported is, in order, each reference without a definition and each
shift behind one with a definition.  The shifts do not matter for the text that comes out.

A caller who gives a reporter gets this text, and the reporter is called with the problems one after
the other; a caller who gives none gets the same text. -/
theorem expand_content (t : Table) {ps : List Part} (h : AllFit ps) :
    (t.expand (content ps)).1 = ps.flatMap (Part.value t) ∧
      (t.expand (content ps)).2.map (fun x ↦ (x, x.severity)) =
        ps.filterMap (Part.report? t) ∧
      (∀ qs : List Part, AllFit qs → qs.map Part.unshifted = ps.map Part.unshifted →
        (t.expand (content qs)).1 = (t.expand (content ps)).1) ∧
      (∀ (ν : Type) (report : Problem → Noted ν Unit), t.expandFor (some report) (content ps) = do
        (t.expand (content ps)).2.forM report
        return ps.flatMap (Part.value t)) ∧
      ∀ ν : Type, (t.expandFor none (content ps) : Noted ν (List Char)) =
        pure (ps.flatMap (Part.value t)) := by
  have htext {qs : List Part} (hqs : AllFit qs) :
      (t.expand (content qs)).1 = qs.flatMap (Part.value t) := by
    rw [expand, pieces_content hqs, fill_flatMap]
    exact List.flatMap_congr fun p _ ↦ t.fill_part p
  refine ⟨htext h, ?_, fun qs hqs hshifts ↦ ?_, fun ν report ↦ by rw [expandFor, ← htext h],
    fun ν ↦ by rw [expandFor, ← htext h]⟩
  · rw [expand, pieces_content h, found_flatMap, List.filterMap_flatMap, List.map_flatMap,
      List.filterMap_eq_flatMap_toList]
    exact List.flatMap_congr fun p _ ↦ t.reports_part p
  -- a value does not depend on shifts, so it may be taken without them
  · have hvalue (rs : List Part) :
        rs.flatMap (Part.value t) = (rs.map Part.unshifted).flatMap (Part.value t) := by
      rw [List.flatMap_map]
      exact List.flatMap_congr fun p _ ↦ (t.value_unshifted p).symm
    rw [htext hqs, htext h, hvalue, hshifts, ← hvalue]

/-- A fragment that looks like another reference. -/
def riffs : Table := (∅ : OrderedMap String).put "riff" "c4 $x"

/-- A plus sign without digits, a reference without a definition, and two references that touch. -/
def phrase : List Part :=
  [.reference "riff".toList none, .literal "+ ".toList,
    .reference "x".toList (some ⟨.minus, ['1'], by decide⟩),
    .reference "riff".toList (some ⟨.plusMinus, ['2'], by decide⟩), .literal ['c']]

theorem expand_content_phrase :
    AllFit phrase ∧ (riffs.expand (content phrase)).1 = "c4 $x+ c4 $xc".toList ∧
      (riffs.expand (content phrase)).2.map (fun x ↦ (x, x.severity)) =
        [(.undefinedMacro "x", .warning), (.shiftIgnored "riff", .info)] ∧
      (riffs.expandFor none (content phrase) : Noted Problem (List Char)).outcome =
        (.ok "c4 $x+ c4 $xc".toList, #[]) := by
  have h : AllFit phrase := by
    refine ⟨⟨by decide, by rintro _ ⟨⟩; decide, ?_⟩, by simp [Part.Fits], ?_, ?_, ?_, trivial⟩
    · -- a space follows the plus sign, and no digit
      rintro ⟨sign, n, hn⟩ hfront
      obtain ⟨d, n, rfl⟩ := List.exists_cons_of_ne_nil hn.ne_nil
      cases sign with
      | plus =>
        have hd := hn.digit d List.mem_cons_self
        simp [Shift.text, ShiftSign.text, content, Part.text] at hfront
        rw [hfront.1] at hd
        exact absurd hd (by decide)
      | minus => simp [Shift.text, ShiftSign.text, content, Part.text] at hfront
      | plusMinus => simp [Shift.text, ShiftSign.text, content, Part.text] at hfront
    · exact ⟨by decide, by rintro _ ⟨⟩; decide⟩
    · exact ⟨by decide, by rintro _ ⟨⟩; decide⟩
    · simp [Part.Fits]
  obtain ⟨htext, hreports, -, -, hsilent⟩ := expand_content riffs h
  have hphrase : phrase.flatMap (Part.value riffs) = "c4 $x+ c4 $xc".toList := by decide +kernel
  refine ⟨h, htext.trans hphrase, hreports.trans (by decide +kernel), ?_⟩
  rw [hsilent, hphrase]
  rfl

end Table

end TextScore.Macro
