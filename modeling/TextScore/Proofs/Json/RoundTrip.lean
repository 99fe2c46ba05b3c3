import TextScore.Proofs.Json.Numeral
import TextScore.Proofs.Json.Outside

/-!
# JSON text is read back

However a value is laid out, a reader of standard JSON text gets it back: names and items in order,
every text to the character, integers as they are, and doubles as they are printed, if they are
finite.

The induction is on the value.  Its hypothesis has to say that the text of a part is read as the
part whatever follows (`Reads`), for the parts stand in front of commas, line breaks and marks.  It
cannot be quite any text that follows, since a number would go on in digits behind it.  And the text
of a part must not begin with the mark that closes what it is a part of, or with white space, as the
reader looks for these before it reads a part.  Both conditions go with the notion.

Sequences and values by name are shown to be read at once, as the reader treats them alike.  Their
parts differ by the name in front, so there is a second notion for the text of a part (`ReadsPart`),
of which a value without a name and one behind a name are the two cases.

## What is here

* `datum` — what a value is read as.
* `readChars?_escape` — a string is read back.
* `Reads`, `ReadsPart` — a text that is read as a value, or as a part, whatever follows.
* `readParts?_closed`, `reads_enclose` — parts between marks.
* `reads_render`, `read?_render` — a rendered value is read back.
-/

set_option autoImplicit false

namespace TextScore.Json

open Number Text

/-! ## What is read -/

mutual

/-- What a value is read as. -/
def datum : Json → Datum
  | null => .null
  | bool b => .bool b
  | int n => .int n
  | double x => .decimal (showShortest specialNames x)
  | str s => .str s
  | arr items => .arr (dataOfItems items)
  | obj fields => .obj (dataOfFields fields)

/-- What items are read as. -/
def dataOfItems : List Json → List Datum
  | [] => []
  | j :: js => datum j :: dataOfItems js

/-- What fields are read as. -/
def dataOfFields : List (String × Json) → List (List Char × Datum)
  | [] => []
  | (k, j) :: fs => (k.toList, datum j) :: dataOfFields fs

end

/-! ## Strings

Characters beyond the first plane are written by two numbers, which are put together again. -/

theorem hexValue?_hexDigit : ∀ n < 16, hexValue? (hexDigit n) = some n := by decide

/-- An escaped character is read back. -/
theorem readChar?_escapeChar (c : Char) (r : List Char) :
    readChar? (escapeChar c ++ r) = some (c, r) := by
  rw [escapeChar]
  split_ifs with hquote hslash hn hr ht hb hf hlow
  -- an escape of its own
  iterate 7 subst c; rfl
  · -- a control character is written by its number
    have hunit : readUnit? ('0' :: '0' :: hexDigit (c.toNat / 16) :: hexDigit (c.toNat % 16) :: r) =
        some (c.toNat, r) := by
      have hzero : hexValue? '0' = some 0 := rfl
      have hsum : c.toNat / 16 * 16 + c.toNat % 16 = c.toNat := by omega
      simp [readUnit?, hzero, hexValue?_hexDigit (c.toNat / 16) (by omega),
        hexValue?_hexDigit (c.toNat % 16) (by omega), hsum]
    show readCodePoint? ('0' :: '0' :: hexDigit (c.toNat / 16) :: hexDigit (c.toNat % 16) :: r) = _
    rw [readCodePoint?, hunit, Option.bind_eq_bind, Option.bind_some]
    dsimp only
    rw [if_neg (by omega), if_neg (by omega), Char.ofNat_toNat]
    rfl
  · rw [List.singleton_append, readChar?.eq_def]
    split
    case h_1 heq => exact absurd (List.cons.inj heq).1 hslash
    case h_2 heq => exact absurd (List.cons.inj heq).1 hslash
    case h_3 heq =>
      obtain ⟨rfl, rfl⟩ := List.cons.inj heq
      rw [if_neg (by simp [hslash, hlow])]
    case h_4 heq => cases heq

/-- An escaped character does not close the string. -/
theorem exists_escapeChar (c : Char) : ∃ d s, escapeChar c = d :: s ∧ d ≠ '"' := by
  obtain ⟨h, hc, -⟩ | ⟨d, ds, h, -⟩ := escapeChar_cases c
  · exact ⟨c, [], h, hc⟩
  · exact ⟨_, _, h, by decide⟩

/-- A string is read back. -/
theorem readChars?_escape (s r : List Char) :
    readChars? (s.flatMap escapeChar ++ '"' :: r) = some (s, r) := by
  induction s with
  | nil =>
    rw [List.flatMap_nil, List.nil_append, readChars?]
    rfl
  | cons c s ih =>
    obtain ⟨d, t, hd, hne⟩ := exists_escapeChar c
    have hchar := readChar?_escapeChar c (s.flatMap escapeChar ++ '"' :: r)
    rw [List.flatMap_cons, List.append_assoc]
    rw [hd, List.cons_append] at hchar ⊢
    rw [readChars?, if_neg hne]
    split
    case h_1 hnone => cases hnone.symm.trans hchar
    case h_2 hsome =>
      obtain ⟨rfl, rfl⟩ := Prod.mk.inj (Option.some.inj (hsome.symm.trans hchar))
      rw [ih, Option.map_some]

/-! ## Texts that are read as a value

Words, strings and numbers. -/

/-- The text starts with no white space, and not with the mark. -/
def StartsPart (mark : Char) (s : List Char) : Prop :=
  ∃ c t, s = c :: t ∧ isSpace c = false ∧ c ≠ mark

/-- The text is read as a value, whatever follows, if its last number ends there. -/
structure Reads (s : List Char) (d : Datum) : Prop where
  /-- It does not close a sequence. -/
  head : StartsPart ']' s
  /-- It is read. -/
  read : ∀ r, EndsNumber r → readValue? (s ++ r) = some (d, r)

theorem readValue?_scalar {c : Char} (hc : Container.ofOpening? c = none) (s : List Char) :
    readValue? (c :: s) = readScalar? (c :: s) := by
  rw [readValue?, hc]

theorem reads_null : Reads "null".toList .null :=
  ⟨⟨_, _, rfl, by decide, by decide⟩, fun _ _ ↦ readValue?_scalar (by decide) _⟩

theorem reads_true : Reads "true".toList (.bool true) :=
  ⟨⟨_, _, rfl, by decide, by decide⟩, fun _ _ ↦ readValue?_scalar (by decide) _⟩

theorem reads_false : Reads "false".toList (.bool false) :=
  ⟨⟨_, _, rfl, by decide, by decide⟩, fun _ _ ↦ readValue?_scalar (by decide) _⟩

theorem reads_quote (s : List Char) : Reads (quote s) (.str s) := by
  refine ⟨⟨_, _, rfl, by decide, by decide⟩, fun r _ ↦ ?_⟩
  rw [quote, List.cons_append, List.append_assoc, readValue?_scalar (by decide)]
  show (readChars? (s.flatMap escapeChar ++ '"' :: r)).map _ = _
  rw [readChars?_escape, Option.map_some]

/-- A character of numbers starts nothing else. -/
theorem scalar_of_mem_numeralChars {c : Char} (h : c ∈ numeralChars) :
    Container.ofOpening? c = none ∧ isSpace c = false ∧ c ≠ ']' ∧
      ∀ s, readScalar? (c :: s) = readNumber? (c :: s) := by
  have hall : numeralChars.all (fun c ↦ (Container.ofOpening? c).isNone && !isSpace c && c != ']' &&
      c != '"' && (c != 'n' && c != 't' && c != 'f')) = true := by decide
  have hc := List.all_eq_true.mp hall c h
  simp only [Bool.and_eq_true, Option.isNone_iff_eq_none, Bool.not_eq_true', bne_iff_ne] at hc
  obtain ⟨⟨⟨⟨hopening, hspace⟩, hclosing⟩, hquote⟩, ⟨hn, ht⟩, hf⟩ := hc
  refine ⟨hopening, hspace, hclosing, fun s ↦ ?_⟩
  have hwords : wordValues.find? (fun w ↦ w.1.isPrefixOf (c :: s)) = none := by
    simp [wordValues, List.isPrefixOf, Ne.symm hn, Ne.symm ht, Ne.symm hf]
  rw [readScalar?.eq_def]
  split
  case h_1 heq => exact absurd (List.cons.inj heq).1 hquote
  case h_2 => rw [hwords]

theorem reads_number {s : List Char} {d : Datum} (hs : ∀ c ∈ s, c ∈ numeralChars)
    (hd : ofNumeral? s = some d) : Reads s d := by
  cases s with
  | nil => cases hd
  | cons c s =>
    obtain ⟨hopening, hspace, hclosing, hscalar⟩ :=
      scalar_of_mem_numeralChars (hs c List.mem_cons_self)
    refine ⟨⟨c, s, rfl, hspace, hclosing⟩, fun r hr ↦ ?_⟩
    rw [List.cons_append, readValue?_scalar hopening, hscalar]
    exact readNumber?_append hs hd hr

/-! ## Parts

`closed l k level ss r` is what the reader has in front of it when it reads the first of the parts
`ss`: the parts and commas, the closing mark, and the rest `r`.  The induction on the parts is on
texts of this form. -/

/-- The text is read as a part, with its name, if it has one. -/
structure ReadsPart (k : Container) (s : List Char) (p : List Char × Datum) : Prop where
  /-- It does not close what it is a part of. -/
  head : StartsPart k.closing s
  /-- It is read. -/
  read : ∀ r, EndsNumber r →
    ∃ t, k.readName? (s ++ r) = some (p.1, t) ∧ readValue? t = some (p.2, r)

theorem Reads.item {s : List Char} {d : Datum} (h : Reads s d) : ReadsPart .array s ([], d) :=
  ⟨h.head, fun r hr ↦ ⟨s ++ r, rfl, h.read r hr⟩⟩

theorem skipSpace_cons {c : Char} (hc : isSpace c = false) (s : List Char) :
    skipSpace (c :: s) = c :: s :=
  List.dropWhile_cons_of_neg (by simp [hc])

/-- A value behind its name. -/
theorem Reads.field {s : List Char} {d : Datum} (h : Reads s d) (name : List Char) (l : Layout) :
    ReadsPart .object (quote name ++ l.colon ++ s) (name, d) := by
  refine ⟨⟨_, _, rfl, by decide, by decide⟩, fun r hr ↦ ⟨s ++ r, ?_, h.read r hr⟩⟩
  obtain ⟨c, t, rfl, hspace, -⟩ := h.head
  have hcolon : ∃ space, l.colon ++ (c :: t ++ r) = ':' :: space ∧
      skipSpace space = c :: t ++ r := by
    rw [Layout.colon]
    split
    · exact ⟨_, rfl, skipSpace_cons hspace _⟩
    · exact ⟨_, rfl, skipSpace_cons hspace _⟩
  obtain ⟨space, hcolon, hskip⟩ := hcolon
  rw [quote, List.append_assoc, List.append_assoc, hcolon, List.cons_append, List.append_assoc]
  show (readChars? (name.flatMap escapeChar ++ '"' :: ':' :: space)).bind _ = _
  have hmark : skipSpace (':' :: space) = ':' :: space := skipSpace_cons (by decide) _
  simp only [readChars?_escape, Option.bind_some, hmark, hskip]

section

variable (l : Layout) {k : Container} {ss : List (List Char)} {ps : List (List Char × Datum)}

theorem isSpace_newline (level : Nat) : ∀ c ∈ l.newline level, isSpace c = true := by
  rw [Layout.newline]
  split
  · simp
  · intro c hc
    rcases List.mem_cons.mp hc with rfl | hc
    · decide
    · rw [List.eq_of_mem_replicate hc]
      decide

theorem skipSpace_newline (level : Nat) {c : Char} (hc : isSpace c = false) (s : List Char) :
    skipSpace (l.newline level ++ c :: s) = c :: s :=
  (span_append (isSpace_newline l level) fun d hd ↦ by cases hd; exact hc).2

theorem endsNumber_newline (level : Nat) {c : Char} (hc : isNumberChar c = false) (s : List Char) :
    EndsNumber (l.newline level ++ c :: s) := by
  rw [Layout.newline]
  intro d hd
  split at hd
  · cases hd
    exact hc
  · cases hd
    decide

theorem mark_closing (k : Container) :
    isSpace k.closing = false ∧ isNumberChar k.closing = false := by
  cases k <;> decide

/-- What one part more is read as. -/
theorem readParts?_eq {s t r r' name : List Char} {d : Datum} {c : Char}
    (hname : k.readName? s = some (name, t)) (hvalue : readValue? t = some (d, r))
    (hskip : skipSpace r = c :: r') :
    readParts? k s = if c = k.closing then some ([(name, d)], r')
      else if c = ',' ∧ r'.length < s.length then
        (readParts? k (skipSpace r')).map fun p ↦ ((name, d) :: p.1, p.2)
      else none := by
  rw [readParts?]
  split
  case h_1 hnone => cases hnone.symm.trans hname
  case h_2 hsome =>
    obtain ⟨rfl, rfl⟩ := Prod.mk.inj (Option.some.inj (hsome.symm.trans hname))
    rw [hvalue]
    dsimp only
    rw [hskip]
    rfl

/-- Parts with commas between them, the closing mark, and what follows it. -/
def closed (k : Container) (level : Nat) (ss : List (List Char)) (r : List Char) : List Char :=
  (',' :: l.newline (level + 1)).intercalate ss ++ (l.newline level ++ k.closing :: r)

theorem closed_singleton (level : Nat) (s r : List Char) :
    closed l k level [s] r = s ++ (l.newline level ++ k.closing :: r) := by
  rw [closed, List.intercalate_singleton]

theorem closed_cons_cons (level : Nat) (s s' : List Char) (ss : List (List Char)) (r : List Char) :
    closed l k level (s :: s' :: ss) r =
      s ++ ',' :: (l.newline (level + 1) ++ closed l k level (s' :: ss) r) := by
  rw [closed, closed, List.intercalate_cons_cons]
  simp only [List.append_assoc, List.cons_append]

theorem enclose_append (level : Nat) (s : List Char) (ss : List (List Char)) (r : List Char) :
    l.enclose level k.opening k.closing (s :: ss) ++ r =
      k.opening :: (l.newline (level + 1) ++ closed l k level (s :: ss) r) := by
  show k.opening :: (l.newline (level + 1) ++ _ ++ l.newline level ++ [k.closing]) ++ r = _
  simp only [closed, List.append_assoc, List.cons_append, List.nil_append]

/-- The first part stands in front. -/
theorem exists_closed (level : Nat) (s : List Char) (ss : List (List Char)) (r : List Char) :
    ∃ t, closed l k level (s :: ss) r = s ++ t := by
  cases ss with
  | nil => exact ⟨_, closed_singleton l level s r⟩
  | cons s' ss => exact ⟨_, closed_cons_cons l level s s' ss r⟩

/-- The line break in front of the first part is skipped. -/
theorem skipSpace_closed (level : Nat) {s : List Char} {mark : Char} (hs : StartsPart mark s)
    (ss : List (List Char)) (r : List Char) :
    skipSpace (l.newline (level + 1) ++ closed l k level (s :: ss) r) =
      closed l k level (s :: ss) r := by
  obtain ⟨c, t, rfl, hc, -⟩ := hs
  obtain ⟨u, hu⟩ := exists_closed l level (c :: t) ss r
  rw [hu]
  exact skipSpace_newline l _ hc _

/-- Parts are read up to the closing mark. -/
theorem readParts?_closed (level : Nat) (h : List.Forall₂ (ReadsPart k) ss ps) (hne : ss ≠ [])
    (r : List Char) : readParts? k (closed l k level ss r) = some (ps, r) := by
  obtain ⟨hspace, hnumber⟩ := mark_closing k
  have hcomma : ',' ≠ k.closing := by cases k <;> decide
  induction h with
  | nil => exact absurd rfl hne
  | @cons s p ss ps hs hss ih =>
    cases hss with
    | nil =>
      obtain ⟨t, hname, hvalue⟩ := hs.read _ (endsNumber_newline l level hnumber r)
      rw [closed_singleton, readParts?_eq hname hvalue (skipSpace_newline l level hspace r),
        if_pos rfl]
    | @cons s' p' ss ps hs' hss =>
      obtain ⟨t, hname, hvalue⟩ :=
        hs.read (',' :: (l.newline (level + 1) ++ closed l k level (s' :: ss) r)) fun c hc ↦ by
          cases hc
          decide
      rw [closed_cons_cons, readParts?_eq hname hvalue (skipSpace_cons (by decide) _),
        if_neg hcomma, if_pos ⟨rfl, by simp; omega⟩, skipSpace_closed l level hs'.head,
        ih (List.cons_ne_nil _ _)]
      rfl

theorem readValue?_opening {s r : List Char} {c : Char} (hskip : skipSpace s = c :: r) :
    readValue? (k.opening :: s) = if c = k.closing then some (k.datum [], r)
      else (readParts? k (c :: r)).map fun p ↦ (k.datum p.1, p.2) := by
  have hopening : Container.ofOpening? k.opening = some k := by cases k <;> rfl
  rw [readValue?, hopening]
  dsimp only
  split
  case h_1 hnil => cases hskip.symm.trans hnil
  case h_2 hcons =>
    obtain ⟨rfl, rfl⟩ := List.cons.inj (hskip.symm.trans hcons)
    rfl

/-- Parts between marks are read as what the marks enclose. -/
theorem reads_enclose (level : Nat) (h : List.Forall₂ (ReadsPart k) ss ps) :
    Reads (l.enclose level k.opening k.closing ss) (k.datum ps) := by
  have hopening : isSpace k.opening = false ∧ k.opening ≠ ']' := by cases k <;> decide
  cases h with
  | nil =>
    refine ⟨⟨_, _, rfl, hopening⟩, fun r _ ↦ ?_⟩
    show readValue? (k.opening :: k.closing :: r) = _
    rw [readValue?_opening (skipSpace_cons (mark_closing k).1 r), if_pos rfl]
  | @cons s p ss ps hs hss =>
    refine ⟨⟨_, _, rfl, hopening⟩, fun r _ ↦ ?_⟩
    have hskip := skipSpace_closed (k := k) l level hs.head ss r
    have hparts := readParts?_closed l level (.cons hs hss) (List.cons_ne_nil _ _) r
    obtain ⟨c, t, rfl, -, hc⟩ := hs.head
    obtain ⟨u, hu⟩ := exists_closed (k := k) l level (c :: t) ss r
    rw [hu, List.cons_append] at hskip hparts
    rw [enclose_append, hu, List.cons_append, readValue?_opening hskip, if_neg hc, hparts]
    rfl

end

/-! ## Values -/

mutual

/-- A rendered value is read back. -/
theorem reads_render (l : Layout) (level : Nat) : ∀ j : Json,
    (∀ x ∈ doubles j, x.isFinite = true) → Reads (render l level j) (datum j)
  | null, _ => reads_null
  | bool true, _ => reads_true
  | bool false, _ => reads_false
  | int n, _ => reads_number (fun _ ↦ mem_numeralChars_of_mem_signedDigits)
    (ofNumeral?_signedDigits n)
  | double x, h =>
    have hx := h x (List.mem_singleton_self x)
    reads_number (fun _ ↦ mem_showShortest hx) (ofNumeral?_showShortest hx)
  | str s, _ => reads_quote s
  | arr items, h => by
    have hparts := reads_enclose l level (readsPart_renderItems l (level + 1) items h)
    rwa [Container.datum, List.map_map, show Prod.snd ∘ (([] : List Char), ·) = id from rfl,
      List.map_id] at hparts
  | obj fields, h => reads_enclose l level (readsPart_renderFields l (level + 1) fields h)

theorem readsPart_renderItems (l : Layout) (level : Nat) : ∀ js : List Json,
    (∀ x ∈ doublesOfItems js, x.isFinite = true) →
      List.Forall₂ (ReadsPart .array) (renderItems l level js)
        ((dataOfItems js).map fun d ↦ ([], d))
  | [], _ => .nil
  | j :: js, h => .cons
    (reads_render l level j fun x hx ↦ h x (List.mem_append_left _ hx)).item
    (readsPart_renderItems l level js fun x hx ↦ h x (List.mem_append_right _ hx))

theorem readsPart_renderFields (l : Layout) (level : Nat) : ∀ fs : List (String × Json),
    (∀ x ∈ doublesOfFields fs, x.isFinite = true) →
      List.Forall₂ (ReadsPart .object) (renderFields l level fs) (dataOfFields fs)
  | [], _ => .nil
  | (k, j) :: fs, h => .cons
    ((reads_render l level j fun x hx ↦ h x (List.mem_append_left _ hx)).field k.toList l)
    (readsPart_renderFields l level fs fun x hx ↦ h x (List.mem_append_right _ hx))

end

/-- **Read back.**  A rendered value is read back, if all its doubles are finite.  That is so for
every layout and at every level of indentation. -/
theorem read?_render (l : Layout) (level : Nat) {j : Json}
    (h : ∀ x ∈ j.doubles, x.isFinite = true) : read? (j.render l level) = some j.datum := by
  have hreads := reads_render l level j h
  obtain ⟨c, t, hhead, hc, -⟩ := hreads.head
  have hvalue := hreads.read [] fun c hc ↦ by cases hc
  rw [List.append_nil] at hvalue
  have hskip : skipSpace (j.render l level) = j.render l level := by
    rw [hhead, skipSpace_cons hc]
  rw [read?, hskip, hvalue]
  rfl

end TextScore.Json
