import TextScore.Measure.Directive
import TextScore.Proofs.Text.Words

/-!
# Staff lines

A staff line is read if it has the form of one: names with commas between them, a colon, and what is
played.  Such a line can be written out again, with some of its instruments left out, and is then
read as what is left.

The form is given by an inductive relation with two rules, a last name and a name in front of
others, with blanks wherever they may stand.  Reading is a function on characters.  That they agree
in both directions is what makes the form a grammar: every line that has it is read as what it has
it for, and every line that is read has it.  In particular no line has it in two ways.

## What is here

* `Assignment.Spells` — the form of the names.
* `Assignment.readIds?_iff`, `Assignment.read?_iff` — what is read.
* `Assignment.reads_grammar` — lines have one reading, and it is the one that they were written for.
* `Assignment.WellFormed` — what can be read: names that are words, a text on one line.
* `Assignment.read?_line` — a line that is written out is read back.
* `Assignment.read?_lineFor` — so is a line for one instrument, but for the blanks around its text.

A name ends where a character follows that cannot be in a name, so blanks may stand before a comma
and before the colon, and the colon that counts is the first one behind the names.
-/

set_option autoImplicit false

namespace TextScore

open Text

namespace Assignment

/-! ## Names in front of a colon

The recursion of the reader is on names, and so is the induction of `readIds?_iff`.  The lemmas
before it say what the reader does at one name, given what stands behind it. -/

/-- Some names and a colon as they can be written, and what stands behind the colon.  Blanks may
stand around the commas between names, and in front of the colon. -/
inductive Spells : List (List Char) → List Char → List Char → Prop
  /-- The last name. -/
  | last {id b r : List Char} (hid : IsName id) (hb : ∀ c ∈ b, isBlank c = true) :
    Spells [id] r (id ++ (b ++ ':' :: r))
  /-- A name in front of others. -/
  | more {id a b r t : List Char} {ids : List (List Char)} (hid : IsName id)
    (ha : ∀ c ∈ a, isBlank c = true) (hb : ∀ c ∈ b, isBlank c = true) (h : Spells ids r t) :
    Spells (id :: ids) r (id ++ (a ++ ',' :: (b ++ t)))

section

variable {id b r s t : List Char} {ids : List (List Char)}

/-- A name ends where no character of a name follows, be it behind blanks. -/
theorem span_name (hid : IsName id) (hb : ∀ c ∈ b, isBlank c = true) {c : Char}
    (hword : isWord c = false) (hblank : isBlank c = false) (r : List Char) :
    (id ++ (b ++ c :: r)).takeWhile isWord = id ∧
      ((id ++ (b ++ c :: r)).dropWhile isWord).dropWhile isBlank = c :: r := by
  have hhead : ∀ d ∈ (b ++ c :: r).head?, isWord d = false := by
    intro d hd
    cases b with
    | nil =>
      cases hd
      exact hword
    | cons e b =>
      cases hd
      exact isWord_of_isBlank (hb _ List.mem_cons_self)
  obtain ⟨htake, hdrop⟩ := span_append hid.word hhead
  refine ⟨htake, ?_⟩
  rw [hdrop]
  exact (span_append hb fun d hd ↦ by cases hd; exact hblank).2

/-- A name before a colon is the last one. -/
theorem readIds?_colon (hid : IsName id) (htake : s.takeWhile isWord = id)
    (hdrop : (s.dropWhile isWord).dropWhile isBlank = ':' :: r) : readIds? s = some ([id], r) := by
  rw [readIds?]
  dsimp only
  rw [htake, if_neg (by rw [List.isEmpty_iff]; exact hid.ne_nil)]
  split
  case h_1 r' hr =>
    rw [hdrop] at hr
    cases hr
    rfl
  case h_2 r' hr => cases hdrop.symm.trans hr
  case h_3 hcolon hcomma => exact absurd hdrop (hcolon r)

/-- A name before a comma is followed by the others. -/
theorem readIds?_comma (hid : IsName id) (htake : s.takeWhile isWord = id)
    (hdrop : (s.dropWhile isWord).dropWhile isBlank = ',' :: r) :
    readIds? s = (readIds? (r.dropWhile isBlank)).map fun p ↦ (id :: p.1, p.2) := by
  rw [readIds?]
  dsimp only
  rw [htake, if_neg (by rw [List.isEmpty_iff]; exact hid.ne_nil)]
  split
  case h_1 r' hr => cases hdrop.symm.trans hr
  case h_2 r' hr =>
    rw [hdrop] at hr
    cases hr
    rfl
  case h_3 hcolon hcomma => exact absurd hdrop (hcomma r)

namespace Spells

/-- No blank is before the names. -/
theorem isBlank_head? (h : Spells ids r s) : ∀ c ∈ s.head?, isBlank c = false := by
  have hname {id t : List Char} (hid : IsName id) : ∀ c ∈ (id ++ t).head?, isBlank c = false := by
    intro c hc
    cases id with
    | nil => exact absurd rfl hid.ne_nil
    | cons d id =>
      cases hc
      exact isBlank_of_isWord (hid.word c List.mem_cons_self)
  cases h with
  | last hid hb => exact hname hid
  | more hid ha hb h => exact hname hid

theorem ids_ne_nil (h : Spells ids r s) : ids ≠ [] := by
  cases h <;> exact List.cons_ne_nil _ _

theorem isName (h : Spells ids r s) : ∀ id ∈ ids, IsName id := by
  induction h with
  | last hid hb => exact List.forall_mem_singleton.mpr hid
  | more hid ha hb h ih => exact List.forall_mem_cons.mpr ⟨hid, ih⟩

theorem suffix (h : Spells ids r s) : r <:+ s := by
  induction h with
  | @last id b r => exact ⟨id ++ b ++ [':'], by simp⟩
  | @more id a b r t ids _ _ _ _ ih =>
    obtain ⟨u, rfl⟩ := ih
    exact ⟨id ++ a ++ ',' :: (b ++ u), by simp⟩

/-- Names that are written are read. -/
theorem readIds? (h : Spells ids r s) : readIds? s = some (ids, r) := by
  induction h with
  | @last id b r hid hb =>
    obtain ⟨htake, hdrop⟩ := span_name hid hb (c := ':') (by decide +kernel) (by decide) r
    exact readIds?_colon hid htake hdrop
  | @more id a b r t ids hid ha hb h ih =>
    obtain ⟨htake, hdrop⟩ := span_name hid ha (c := ',') (by decide +kernel) (by decide) (b ++ t)
    rw [readIds?_comma hid htake hdrop, (span_append hb h.isBlank_head?).2, ih]
    rfl

/-- Names that are read were written. -/
theorem of_readIds? (h : Assignment.readIds? s = some (ids, r)) : Spells ids r s := by
  have hblanks (t : List Char) : ∀ c ∈ t.takeWhile isBlank, isBlank c = true :=
    List.all_eq_true.mp List.all_takeWhile
  have hsplit (s : List Char) : s.takeWhile isWord ++ ((s.dropWhile isWord).takeWhile isBlank ++
      (s.dropWhile isWord).dropWhile isBlank) = s := by
    rw [List.takeWhile_append_dropWhile, List.takeWhile_append_dropWhile]
  have hname {s : List Char} (hne : ¬(s.takeWhile isWord).isEmpty = true) :
      IsName (s.takeWhile isWord) :=
    ⟨mt List.isEmpty_iff.mpr hne, List.all_eq_true.mp List.all_takeWhile⟩
  -- the cases of the reader: no name, a name and a colon, a name and a comma, a name and neither
  induction s using readIds?.induct generalizing ids with
  | case1 s id =>
    rename_i hempty
    rw [Assignment.readIds?] at h
    dsimp only at h
    rw [if_pos hempty] at h
    cases h
  | case2 s id =>
    rename_i hid r' hdrop
    rw [readIds?_colon (hname hid) rfl hdrop] at h
    cases h
    have hlast := Spells.last (r := r) (hname hid) (hblanks (s.dropWhile isWord))
    rwa [← hdrop, hsplit] at hlast
  | case3 s id =>
    rename_i hid r' hdrop _ _ _ _ ih
    rw [readIds?_comma (hname hid) rfl hdrop] at h
    obtain ⟨⟨ks, r''⟩, hks, h⟩ := Option.map_eq_some_iff.mp h
    cases h
    have hmore := Spells.more (hname hid) (hblanks (s.dropWhile isWord)) (hblanks r') (ih hks)
    rwa [List.takeWhile_append_dropWhile, ← hdrop, hsplit] at hmore
  | case4 s id =>
    rename_i hid hcolon hcomma
    rw [Assignment.readIds?] at h
    dsimp only at h
    rw [if_neg hid] at h
    split at h
    case h_1 r'' hr => exact absurd hr (hcolon r'')
    case h_2 r'' hr => exact absurd hr (hcomma r'')
    case h_3 => cases h

end Spells

theorem readIds?_iff : readIds? s = some (ids, r) ↔ Spells ids r s :=
  ⟨.of_readIds?, Spells.readIds?⟩

/-- Names can be written with a comma, and blanks behind it, between neighbours. -/
theorem spells_joinWith (hids : ids ≠ []) (hnames : ∀ id ∈ ids, IsName id)
    (hb : ∀ c ∈ b, isBlank c = true) (r : List Char) :
    Spells ids r (joinWith (',' :: b) ids ++ ':' :: r) := by
  induction ids with
  | nil => exact absurd rfl hids
  | cons id ids ih =>
    rw [List.forall_mem_cons] at hnames
    cases ids with
    | nil =>
      rw [joinWith_cons, List.flatMap_nil, List.append_nil]
      exact .last (b := []) hnames.1 fun _ hc ↦ absurd hc List.not_mem_nil
    | cons k ids =>
      have hjoin : joinWith (',' :: b) (id :: k :: ids) ++ ':' :: r =
          id ++ ([] ++ ',' :: (b ++ (joinWith (',' :: b) (k :: ids) ++ ':' :: r))) := by
        simp [joinWith_cons]
      rw [hjoin]
      exact .more hnames.1 (fun _ hc ↦ absurd hc List.not_mem_nil) hb
        (ih (List.cons_ne_nil _ _) hnames.2)

end

/-! ## Staff lines -/

section

variable {l content : List Char} {ids : List (List Char)} {s : Assignment}

/-- What is read of a line. -/
theorem read?_iff : read? l = some s ↔
    ∃ r, Spells s.ids r (trim l) ∧ '\n' ∉ r ∧ s.content = trim r := by
  rw [read?]
  constructor
  · intro h
    split at h
    case h_1 ids r hread =>
      split at h
      case isTrue => cases h
      case isFalse hline =>
        cases h
        exact ⟨r, .of_readIds? hread, by simpa using hline, rfl⟩
    case h_2 => cases h
  · rintro ⟨r, hspells, hline, hcontent⟩
    rw [hspells.readIds?]
    dsimp only
    rw [if_neg (by simpa using hline), ← hcontent]

/-- Of a text behind a character that is no blank only blanks at the end are lost. -/
theorem trim_append_colon {s : List Char} (hs : ∀ c ∈ s.head?, isBlank c = false) (r : List Char) :
    trim (s ++ ':' :: r) = s ++ ':' :: trimEnd r := by
  have hfirst : ∀ c ∈ (s ++ ':' :: r).head?, isBlank c = false := by
    cases s with
    | nil => rintro _ ⟨⟩; decide
    | cons c s => exact hs
  have hcolon : isBlank ':' = false := by decide
  rw [trim, trimStart, dropWhile_isBlank_eq_self hfirst, trimEnd, trimEnd, List.reverse_append,
    List.reverse_cons, List.append_assoc, List.dropWhile_append]
  split
  case isTrue h =>
    rw [List.isEmpty_iff.mp h, List.singleton_append, List.dropWhile_cons_of_neg (by simp [hcolon])]
    simp
  case isFalse => simp

/-- A line that is written out is read back, but for the blanks around what is played. -/
theorem read?_joinWith {b : List Char} (hids : ids ≠ []) (hnames : ∀ id ∈ ids, IsName id)
    (hb : ∀ c ∈ b, isBlank c = true) (hline : '\n' ∉ content) :
    read? (joinWith (',' :: b) ids ++ ':' :: content) = some ⟨ids, trim content⟩ := by
  have hfirst : ∀ c ∈ (joinWith (',' :: b) ids).head?, isBlank c = false := by
    intro c hc
    refine (spells_joinWith hids hnames hb content).isBlank_head? c ?_
    rw [List.head?_append, Option.mem_def.mp hc]
    rfl
  obtain ⟨blanks, hcontent, -⟩ := exists_trimEnd content
  rw [read?_iff]
  refine ⟨trimEnd content, ?_, fun hmem ↦ hline ?_, (trim_trimEnd content).symm⟩
  · rw [trim_append_colon hfirst]
    exact spells_joinWith hids hnames hb _
  · rw [hcontent]
    exact List.mem_append_left _ hmem

/-- **Staff lines.**  A line without line feeds is read if it has the form of a staff line, and as
what it has that form for.  A line with any names, a comma and a space between them, is read as
these names, and what is played may have commas and colons of its own. -/
theorem reads_grammar :
    (∀ l s, '\n' ∉ l → (read? l = some s ↔ ∃ r, Spells s.ids r (trim l) ∧ s.content = trim r)) ∧
      ∀ ids content, ids ≠ [] → (∀ id ∈ ids, IsName id) → '\n' ∉ content →
        read? (joinWith [',', ' '] ids ++ ':' :: ' ' :: content) = some ⟨ids, trim content⟩ := by
  have hspace : ∀ c ∈ [' '], isBlank c = true := List.forall_mem_singleton.mpr (by decide)
  refine ⟨fun l s hl ↦ ?_, fun ids content hids hnames hcontent ↦ ?_⟩
  · rw [read?_iff]
    refine exists_congr fun r ↦ and_congr_right fun hspells ↦ and_iff_right fun hmem ↦ hl ?_
    exact mem_of_mem_trim (hspells.suffix.mem hmem)
  · rw [read?_joinWith hids hnames hspace (by simpa using hcontent)]
    exact congrArg (some ∘ Assignment.mk ids) (trim_blank_append hspace content)

end

/-- Names with blanks of several kinds between them, and what is played has a comma and a colon. -/
def choir : List Char := "\tvn1 ,\u2003va ,vc\u00a0: c4, x: d4 ".toList

theorem reads_grammar_choir : '\n' ∉ choir ∧
      Spells ["vn1".toList, "va".toList, "vc".toList] " c4, x: d4".toList (trim choir) ∧
      read? choir = some ⟨["vn1".toList, "va".toList, "vc".toList], "c4, x: d4".toList⟩ ∧
      ["vn1".toList, "va".toList] ≠ [] ∧ (∀ id ∈ ["vn1".toList, "va".toList], IsName id) ∧
      '\n' ∉ " c4: d4 ".toList ∧
      read? "vn1, va:  c4: d4 ".toList = some ⟨["vn1".toList, "va".toList], "c4: d4".toList⟩ := by
  have hline : '\n' ∉ choir := by decide +kernel
  have hspace : ∀ c ∈ [' '], isBlank c = true := List.all_eq_true.mp (by decide)
  have htext : trim choir = "vn1".toList ++ ([' '] ++ ',' :: (['\u2003'] ++
      ("va".toList ++ ([' '] ++ ',' :: ([] ++ ("vc".toList ++ (['\u00a0'] ++
        ':' :: " c4, x: d4".toList))))))) := by
    decide +kernel
  have hspells : Spells ["vn1".toList, "va".toList, "vc".toList] " c4, x: d4".toList
      (trim choir) := by
    rw [htext]
    refine .more (by decide +kernel) hspace (List.all_eq_true.mp (by decide)) ?_
    refine .more (by decide +kernel) hspace (List.all_eq_true.mp (by decide)) ?_
    exact .last (by decide +kernel) (List.all_eq_true.mp (by decide))
  have hids : ["vn1".toList, "va".toList] ≠ [] := by decide
  have hnames : ∀ id ∈ ["vn1".toList, "va".toList], IsName id := by decide +kernel
  have hcontent : '\n' ∉ " c4: d4 ".toList := by decide +kernel
  have htrim : "c4, x: d4".toList = trim " c4, x: d4".toList := by decide +kernel
  refine ⟨hline, hspells, (reads_grammar.1 _ _ hline).mpr ⟨_, hspells, htrim⟩, hids, hnames,
    hcontent, ?_⟩
  exact reads_grammar.2 _ _ hids hnames hcontent

/-! ## Lines that are written out

Writing a line and reading it again is used to say what a score is without some of its instruments;
the line is rewritten as text, and its meaning is that of the text. -/

/-- What can be written on a staff line: names that are words, and a text on one line without blanks
at its ends. -/
structure WellFormed (s : Assignment) : Prop where
  /-- There are names. -/
  ids_ne_nil : s.ids ≠ []
  /-- The names are not empty. -/
  id_ne_nil : ∀ id ∈ s.ids, id ≠ []
  /-- The names are words. -/
  word : ∀ id ∈ s.ids, ∀ c ∈ id, isWord c = true
  /-- The text is on one line. -/
  oneLine : s.content.contains '\n' = false
  /-- The text has no blanks at its ends. -/
  trimmed : trim s.content = s.content

/-- A staff line as a text. -/
def line (s : Assignment) : List Char := joinWith [','] s.ids ++ ':' :: s.content

/-- A line that is written out is read back. -/
theorem read?_line {s : Assignment} (h : s.WellFormed) : read? s.line = some s := by
  have hnames : ∀ id ∈ s.ids, IsName id := fun id hid ↦ ⟨h.id_ne_nil id hid, h.word id hid⟩
  rw [line, read?_joinWith h.ids_ne_nil hnames (fun _ hc ↦ absurd hc List.not_mem_nil)
    (by simpa using h.oneLine), h.trimmed]

/-- What is read is well formed. -/
theorem wellFormed_of_read? {l : List Char} {s : Assignment} (h : read? l = some s) :
    s.WellFormed := by
  obtain ⟨r, hspells, hline, hcontent⟩ := read?_iff.mp h
  refine ⟨hspells.ids_ne_nil, fun id hid ↦ (hspells.isName id hid).ne_nil,
    fun id hid ↦ (hspells.isName id hid).word, ?_, ?_⟩
  · rw [hcontent, Bool.eq_false_iff, ne_eq, List.contains_iff_mem]
    exact fun hmem ↦ hline (mem_of_mem_trim hmem)
  · rw [hcontent, trim_trim]

/-- The staff line on which one instrument plays a text. -/
def lineFor (id content : List Char) : List Char := id ++ ':' :: ' ' :: content

/-- A line for one instrument is read as that. -/
theorem read?_lineFor {id content : List Char} (hne : id ≠ []) (hword : ∀ c ∈ id, isWord c = true)
    (hline : '\n' ∉ content) : read? (lineFor id content) = some ⟨[id], trim content⟩ := by
  have hspace : ∀ c ∈ [' '], isBlank c = true := List.forall_mem_singleton.mpr (by decide)
  have hcontent : '\n' ∉ ' ' :: content := by simpa using hline
  have hread := read?_joinWith (List.cons_ne_nil id []) (List.forall_mem_singleton.mpr ⟨hne, hword⟩)
    hspace hcontent
  rw [joinWith_cons, List.flatMap_nil, List.append_nil] at hread
  rw [lineFor, hread]
  exact congrArg (some ∘ Assignment.mk [id]) (trim_blank_append hspace content)

end Assignment

end TextScore
