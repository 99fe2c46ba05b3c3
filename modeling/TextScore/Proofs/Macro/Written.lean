import TextScore.Macro
import TextScore.Proofs.Ensemble.Declared
import TextScore.Proofs.Text.Class
import TextScore.Proofs.Text.Scan
import TextScore.Proofs.Text.Words

/-!
# Definitions of fragments are read back

A text whose lines are plain but for some definitions, each on lines of its own, defines just these
fragments.  What looks like a definition within the braces of another one is part of that one.

A definition is found by scanning, and a scan can go wrong in two ways: it finds something where
nothing was meant, or it starts too early and swallows what was meant.  Plain lines are such that no
definition starts in them, not even one that would be finished on a later line.  And a definition
that is found takes everything up to its closing brace, so that its body is not scanned.

## What is here

* `Macro.Entry`, `Macro.Passage` — a definition; a plain line, or a definition.
* `Macro.pieces_text` — the definitions are the occurrences in the text.
* `Macro.keys_foldl_define`, `Macro.get?_foldl_define` — the table behind some definitions.
* `Macro.Table.Takes` — what a text does to a table, and what is left of its lines.
* `Macro.Table.collect_text` — the texts of some passages do that.

What is left of the text matters as much as the table.  Every later stage counts lines, and a
definition that goes over three lines has to leave three lines behind, all of them empty.
-/

set_option autoImplicit false

namespace TextScore.Macro

open Text

/-! ## Definitions as they are written

The body of a definition may hold anything but a closing brace, line feeds and other definitions
included. -/

/-- The two openings of a definition. -/
inductive Opening
  /-- The keyword. -/
  | keyword
  /-- The sign that references have. -/
  | sign
  deriving DecidableEq, Repr

/-- The characters of an opening. -/
def Opening.text : Opening → List Char
  | .keyword => "macro ".toList
  | .sign => ['$']

/-- A definition to be written. -/
structure Entry where
  /-- The opening. -/
  opening : Opening
  /-- The name. -/
  name : List Char
  /-- What is put between the braces. -/
  body : List Char
  deriving DecidableEq, Repr

namespace Entry

/-- The definition as it is written. -/
def text (e : Entry) : List Char :=
  e.opening.text ++ e.name ++ " = \x7b ".toList ++ e.body ++ " \x7d".toList

/-- The definition as it is read. -/
def definition (e : Entry) : Definition := ⟨e.name, ' ' :: (e.body ++ [' ']), e.text⟩

/-- The words between the braces, with single spaces between them. -/
def fragment (e : Entry) : List Char := joinWith [' '] (words e.body)

/-- The definition can be written down: the body does not close the braces. -/
structure IsWritten (e : Entry) : Prop where
  /-- The name is a name. -/
  name : IsName e.name
  /-- The braces are closed by the brace behind the text. -/
  closed : '\x7d' ∉ e.body

instance : DecidablePred IsWritten := fun e ↦
  decidable_of_iff (IsName e.name ∧ '\x7d' ∉ e.body)
    ⟨fun h ↦ ⟨h.1, h.2⟩, fun h ↦ ⟨h.name, h.closed⟩⟩

end Entry

/-- A line without references and without the keyword of a definition. -/
structure IsPlain (l : List Char) : Prop where
  /-- It is one line. -/
  oneLine : '\n' ∉ l
  /-- Neither a reference nor a definition starts in it. -/
  sign : '$' ∉ l
  /-- The keyword is none of its words. -/
  keyword : ¬HasWord ["macro".toList] l

instance : DecidablePred IsPlain := fun l ↦
  decidable_of_iff ('\n' ∉ l ∧ '$' ∉ l ∧ ¬HasWord ["macro".toList] l)
    ⟨fun h ↦ ⟨h.1, h.2.1, h.2.2⟩, fun h ↦ ⟨h.oneLine, h.sign, h.keyword⟩⟩

/-- A stretch of a text: a plain line, or a definition on lines of its own. -/
inductive Passage
  /-- A plain line. -/
  | plain (line : List Char)
  /-- A definition. -/
  | definition (entry : Entry)
  deriving DecidableEq, Repr

namespace Passage

/-- The characters of the stretch. -/
def text : Passage → List Char
  | plain l => l
  | definition e => e.text

/-- The stretch is as it should be. -/
def IsWritten : Passage → Prop
  | plain l => IsPlain l
  | definition e => e.IsWritten

instance : DecidablePred IsWritten
  | plain l => inferInstanceAs (Decidable (IsPlain l))
  | definition e => inferInstanceAs (Decidable e.IsWritten)

/-- The definition in the stretch. -/
def entry? : Passage → Option Entry
  | plain _ => none
  | definition e => some e

/-- The lines of the stretch, each with a mark if it is a plain line. -/
def lines : Passage → List (List Char × Bool)
  | plain l => [(l, true)]
  | definition e => (Text.lines e.text).map (·, false)

/-- The stretch, cut into occurrences and other characters. -/
def pieces : Passage → List (Piece Definition)
  | plain l => l.map .plain
  | definition e => [.found e.definition]

end Passage

/-- The text with the given passages. -/
def text (ps : List Passage) : List Char := unlines (ps.map Passage.text)

/-- The definitions among some passages. -/
def entries (ps : List Passage) : List Entry := ps.filterMap Passage.entry?

/-! ## A passage is scanned

The keyword of a definition starts a word, so the scan knows whether a word character stands before.
Behind a line feed none does. -/

namespace Definition

/-- A name, an equals sign and a text in braces are read in front of anything. -/
theorem dropAssignment?_append {name body : List Char} (hn : IsName name)
    (hbody : '\x7d' ∉ body) (opening r : List Char) :
    dropAssignment? opening (name ++ ' ' :: '=' :: ' ' :: '\x7b' :: (body ++ '\x7d' :: r)) =
      some (⟨name, body, opening ++ name ++ [' '] ++ '=' :: [' '] ++ '\x7b' :: body ++ ['\x7d']⟩,
        r) := by
  obtain ⟨c, name, rfl⟩ := List.exists_cons_of_ne_nil hn.ne_nil
  obtain ⟨hname, hequals⟩ := span_append (r := ' ' :: '=' :: ' ' :: '\x7b' :: (body ++ '\x7d' :: r))
    hn.word (by simp; decide)
  obtain ⟨hbraced, hrest⟩ := span_until (r := '\x7d' :: r) hbody (by simp)
  have hblank : isBlank ' ' = true ∧ isBlank '=' = false ∧ isBlank '\x7b' = false := by decide
  rw [List.cons_append] at hname hequals
  simp [dropAssignment?, hname, hequals, hbraced, hrest, hblank]

/-- An opening is read in front of a name. -/
theorem dropOpening?_append (o : Opening) {name : List Char}
    (hword : ∀ c ∈ name.head?, isBlank c = false) :
    dropOpening? false (o.text ++ name) = some (o.text, name) := by
  cases o with
  | keyword =>
    have hkeyword : dropKeyword? "macro".toList ("macro".toList ++ ' ' :: name) =
        some (' ' :: name) := dropKeyword?_append _ _
    obtain ⟨hblanks, hname⟩ := span_append (s := [' ']) (by simp; decide) hword
    have htext : Opening.keyword.text ++ name = "macro".toList ++ ' ' :: name := rfl
    rw [htext, dropOpening?, hkeyword]
    case x_1 => simp
    rw [List.singleton_append] at hblanks hname
    dsimp only
    rw [hblanks, hname]
    rfl
  | sign => rfl

/-- An opening is the sign, or the keyword at the beginning of a word with a blank behind it. -/
theorem starts_of_dropOpening? {before : Bool} {s o r : List Char}
    (h : dropOpening? before s = some (o, r)) :
    s.head? = some '$' ∨ before = false ∧
      ∃ t, dropKeyword? "macro".toList s = some t ∧ ∃ c ∈ t.head?, isBlank c = true := by
  unfold dropOpening? at h
  split at h
  case h_1 => exact .inl rfl
  case h_2 =>
    split at h
    case isTrue => cases h
    case isFalse hbefore =>
      split at h
      case h_1 => cases h
      case h_2 t ht =>
        refine .inr ⟨eq_false_of_ne_true hbefore, t, ht, ?_⟩
        cases t with
        | nil => cases h
        | cons c t =>
          refine ⟨c, rfl, ?_⟩
          by_contra hblank
          simp [hblank] at h

/-- A definition is read in front of anything. -/
theorem read?_text {e : Entry} (he : e.IsWritten) (r : List Char) :
    read? false (e.text ++ r) = some (e.definition, r) := by
  have hhead : ∀ c ∈ (e.name ++ ' ' :: '=' :: ' ' :: '\x7b' :: (' ' :: (e.body ++ [' ']) ++
      '\x7d' :: r)).head?, isBlank c = false := by
    obtain ⟨c, name, hname⟩ := List.exists_cons_of_ne_nil he.name.ne_nil
    rw [hname]
    have hc := isBlank_of_isWord (he.name.word c (by simp [hname]))
    simpa using hc
  have hbody : '\x7d' ∉ ' ' :: (e.body ++ [' ']) := by simpa using he.closed
  have htext : e.text ++ r = e.opening.text ++ (e.name ++ ' ' :: '=' :: ' ' :: '\x7b' ::
      (' ' :: (e.body ++ [' ']) ++ '\x7d' :: r)) := by
    simp [Entry.text]
  rw [htext, read?, dropOpening?_append e.opening hhead]
  dsimp only
  rw [dropAssignment?_append he.name hbody]
  simp [Entry.definition, Entry.text]

/-- No definition starts within a plain line. -/
theorem read?_plain {l v w r : List Char} {c : Char} (hl : IsPlain l) (h : l = v ++ c :: w)
    (hr : ∀ d ∈ r.head?, isWord d = false) :
    read? (wordBehind false v) (c :: (w ++ r)) = none := by
  cases hopening : dropOpening? (wordBehind false v) (c :: (w ++ r)) with
  | none => rw [read?, hopening]
  | some or =>
    exfalso
    rcases starts_of_dropOpening? hopening with hsign | ⟨hbefore, t, ht, d, hd, hblank⟩
    · cases hsign
      exact hl.sign (by simp [h])
    · -- the keyword would be a word of the line: `r` adds nothing to the line's last word
      have hends : ∀ d ∈ t.head?, isWord d = false := by
        rw [hd]
        rintro d' ⟨⟩
        exact isWord_of_isBlank hblank
      have hword := ((dropKeyword?_iff (by decide) hends).mp ht).1
      rw [← List.cons_append, takeWhile_append_of_head? hr] at hword
      refine hl.keyword (h ▸ hasWord_append (List.cons_ne_nil c w) ?_ ?_)
      · rwa [← wordBehind_false]
      · rw [spells, List.any_cons, hword]
        rfl

theorem read?_feed (before : Bool) (r : List Char) : read? before ('\n' :: r) = none := by
  cases before <;> rfl

theorem fragment_definition (e : Entry) : e.definition.fragment = e.fragment := by
  have hblank : isBlank ' ' = true := by decide
  rw [fragment, Entry.definition, words_cons_blank hblank, words_append_blank hblank, words_nil,
    List.append_nil, Entry.fragment]

end Definition

/-- A passage in front of the end of its line is cut as it should be. -/
theorem piecesOnto_passage {p : Passage} (hp : p.IsWritten) {r : List Char}
    (hr : ∀ d ∈ r.head?, isWord d = false) :
    ∃ b, Definition.recogniser.piecesOnto [] false (p.text ++ r) =
      p.pieces ++ Definition.recogniser.piecesOnto [] b r := by
  cases p with
  | plain l =>
    exact ⟨wordBehind false l,
      Recogniser.piecesOnto_append_of_none fun v c w h ↦ Definition.read?_plain hp h hr⟩
  | definition e =>
    have hread := Definition.read?_text hp r
    have hcut : Definition.recogniser.pieces (e.text ++ r) = _ :=
      Recogniser.pieces_of_some hread
    exact ⟨false, hcut⟩

/-- A text is scanned passage by passage. -/
theorem pieces_text {p : Passage} {ps : List Passage} (h : ∀ q ∈ p :: ps, q.IsWritten) :
    Definition.recogniser.pieces (text (p :: ps)) =
      p.pieces ++ ps.flatMap fun q ↦ .plain '\n' :: q.pieces := by
  rw [text, List.map_cons, unlines_cons, List.flatMap_map, Recogniser.pieces]
  induction ps generalizing p with
  | nil =>
    obtain ⟨b, hb⟩ := piecesOnto_passage (h p List.mem_cons_self) (r := []) (by simp)
    simpa using hb
  | cons q ps ih =>
    obtain ⟨hp, hps⟩ := List.forall_mem_cons.mp h
    -- behind the line feed the scan is where it is at the start, whatever the line ends in
    have hfeed : isWord '\n' = false := by decide
    obtain ⟨b, hb⟩ := piecesOnto_passage hp
      (r := '\n' :: (q.text ++ ps.flatMap fun p ↦ '\n' :: p.text)) (by simpa using hfeed)
    rw [List.flatMap_cons, List.cons_append, hb,
      Recogniser.piecesOnto_eq_of_none _ (Definition.read?_feed b _), hfeed, ih hps,
      List.flatMap_cons, List.cons_append]

theorem found_pieces (p : Passage) : found p.pieces = p.entry?.toList.map Entry.definition := by
  cases p with
  | plain l => exact found_map_plain l
  | definition e => rfl

/-- The definitions are the occurrences. -/
theorem found_text {ps : List Passage} (h : ∀ p ∈ ps, p.IsWritten) :
    found (Definition.recogniser.pieces (text ps)) = (entries ps).map Entry.definition := by
  cases ps with
  | nil => simp [text, unlines, joinWith, entries]
  | cons p ps =>
    rw [pieces_text h, entries, List.filterMap_eq_flatMap_toList, List.flatMap_cons,
      List.map_append, List.map_flatMap]
    simp [found_flatMap, found_pieces]

/-- What is left of a passage. -/
def Passage.remnant (p : Passage) : List Char := fill Definition.residue p.pieces

/-- A plain line is left as it is, and as many empty lines as a definition has. -/
theorem lines_remnant {p : Passage} (hp : p.IsWritten) :
    lines p.remnant = p.lines.map fun l ↦ if l.2 then l.1 else [] := by
  cases p with
  | plain l =>
    rw [Passage.remnant, Passage.pieces, fill_map_plain, lines, splitOnChar_of_not_mem hp.oneLine]
    rfl
  | definition e =>
    rw [Passage.remnant, Passage.pieces, fill_found, fill_nil, List.append_nil, Definition.residue,
      lines_filter_feed, Passage.lines, List.map_map]
    rfl

theorem lines_passage {p : Passage} (hp : p.IsWritten) : lines p.text = p.lines.map Prod.fst := by
  cases p with
  | plain l => exact splitOnChar_of_not_mem hp.oneLine
  | definition e =>
    rw [Passage.lines, List.map_map]
    exact (List.map_id _).symm

/-- What is left of a text is what is left of its passages. -/
theorem fill_text {ps : List Passage} (h : ∀ p ∈ ps, p.IsWritten) :
    fill Definition.residue (Definition.recogniser.pieces (text ps)) =
      unlines (ps.map Passage.remnant) := by
  cases ps with
  | nil => simp [text, unlines, joinWith]
  | cons p ps =>
    rw [pieces_text h, List.map_cons, unlines_cons, fill_append, fill_flatMap, List.flatMap_map]
    rfl

/-! ## The table

The table is a fold over the definitions in the order of the text: a name stands where it was first
defined, with what it was last defined as. -/

namespace Table

theorem keys_foldl_define (t : Table) (ds : List Definition) :
    (ds.foldl define t).keys = (t.keys ++ ds.map fun d ↦ String.ofList d.name).eraseDups := by
  induction ds using List.reverseRecOn with
  | nil =>
    rw [List.map_nil, List.append_nil]
    exact (eraseDups_eq_self t.nodup_keys).symm
  | append_singleton ds d ih =>
    rw [List.foldl_append, List.map_append, ← List.append_assoc, List.map_singleton,
      eraseDups_concat, List.foldl_cons, List.foldl_nil, define, OrderedMap.keys_put, ih]
    simp

theorem get?_foldl_define_of_not_mem (t : Table) {ds : List Definition} {name : List Char}
    (h : ∀ d ∈ ds, d.name ≠ name) :
    (ds.foldl define t).get? (String.ofList name) = t.get? (String.ofList name) := by
  induction ds generalizing t with
  | nil => rfl
  | cons d ds ih =>
    obtain ⟨hd, hds⟩ := List.forall_mem_cons.mp h
    rw [List.foldl_cons, ih _ hds, define, OrderedMap.get?_put_of_ne]
    exact fun hname ↦ hd (String.ofList_injective hname).symm

/-- The last definition of a name counts. -/
theorem get?_foldl_define (t : Table) (past : List Definition) (d : Definition)
    {later : List Definition} (h : ∀ d' ∈ later, d'.name ≠ d.name) :
    ((past ++ d :: later).foldl define t).get? (String.ofList d.name) =
      some (String.ofList d.fragment) := by
  rw [List.foldl_append, List.foldl_cons, get?_foldl_define_of_not_mem _ h, define,
    OrderedMap.get?_put_self]

/-- The definitions of a text are taken over from `t` to `t'`, and `left` is left of the text. -/
structure Takes (t : Table) (ps : List Passage) (left : List Char) (t' : Table) : Prop where
  /-- The names that are new stand behind the known ones, in order of first definition. -/
  keys : t'.keys = (t.keys ++ (entries ps).map fun e ↦ String.ofList e.name).eraseDups
  /-- The last definition of a name counts. -/
  last : ∀ past e later, entries ps = past ++ e :: later → (∀ e' ∈ later, e'.name ≠ e.name) →
    t'.get? (String.ofList e.name) = some (String.ofList e.fragment)
  /-- The other names keep their fragments. -/
  other : ∀ name, (∀ e ∈ entries ps, e.name ≠ name) →
    t'.get? (String.ofList name) = t.get? (String.ofList name)
  /-- The lines of the text are those of its passages. -/
  lines : lines (text ps) = (ps.flatMap Passage.lines).map Prod.fst
  /-- The plain ones are left as they are, and those of definitions are left empty. -/
  left : Text.lines left = (ps.flatMap Passage.lines).map fun l ↦ if l.2 then l.1 else []

theorem collect_text_snd (t : Table) {ps : List Passage} (h : ∀ p ∈ ps, p.IsWritten) :
    (t.collect (text ps)).2 = ((entries ps).map Entry.definition).foldl define t := by
  rw [collect, found_text h]

theorem takes_collect (t : Table) {ps : List Passage} (hne : ps ≠ [])
    (h : ∀ p ∈ ps, p.IsWritten) :
    t.Takes ps (t.collect (text ps)).1 (t.collect (text ps)).2 where
  keys := by
    rw [collect_text_snd t h, keys_foldl_define, List.map_map]
    rfl
  last past e later hentries hlater := by
    rw [collect_text_snd t h, hentries, List.map_append, List.map_cons,
      ← Definition.fragment_definition]
    exact get?_foldl_define t _ e.definition (List.forall_mem_map.mpr hlater)
  other name hname := by
    rw [collect_text_snd t h]
    exact get?_foldl_define_of_not_mem t (List.forall_mem_map.mpr hname)
  lines := by
    rw [text, lines_unlines (by simpa using hne), List.flatMap_map, List.map_flatMap]
    exact List.flatMap_congr fun p hp ↦ lines_passage (h p hp)
  left := by
    rw [collect, fill_text h, lines_unlines (by simpa using hne), List.flatMap_map,
      List.map_flatMap]
    exact List.flatMap_congr fun p hp ↦ lines_remnant (h p hp)

theorem text_flatten {texts : List (List Passage)} (hne : [] ∉ texts) :
    text texts.flatten = unlines (texts.map text) := by
  have hlines : [] ∉ texts.map fun ps ↦ ps.map Passage.text := by simpa using hne
  rw [text, List.map_flatten, ← unlines_flatten hlines, List.map_map]
  rfl

theorem foldl_collect_text {texts : List (List Passage)} (h : ∀ ps ∈ texts, ∀ p ∈ ps, p.IsWritten)
    (t : Table) :
    texts.foldl (fun t ps ↦ (t.collect (text ps)).2) t =
      ((entries texts.flatten).map Entry.definition).foldl define t := by
  induction texts generalizing t with
  | nil => rfl
  | cons ps texts ih =>
    obtain ⟨hps, htexts⟩ := List.forall_mem_cons.mp h
    rw [List.foldl_cons, ih htexts, collect_text_snd t hps, ← List.foldl_append, ← List.map_append,
      entries, entries, entries, ← List.filterMap_append, List.flatten_cons]

/-- **Definitions are read back.**  A text of plain lines and definitions, whatever the definitions
have between their braces, adds just these definitions to a table, and its plain lines stay where
they are.  Several texts, one after the other, make the table of their lines taken together: it does
not matter whether a score is read at once or file by file. -/
theorem collect_text {texts : List (List Passage)} (hne : [] ∉ texts)
    (h : ∀ ps ∈ texts, ∀ p ∈ ps, p.IsWritten) (t : Table) :
    (∀ ps ∈ texts, t.Takes ps (t.collect (text ps)).1 (t.collect (text ps)).2) ∧
      texts.foldl (fun t ps ↦ (t.collect (text ps)).2) t =
        (t.collect (unlines (texts.map text))).2 := by
  refine ⟨fun ps hps ↦ takes_collect t (fun hnil ↦ hne (hnil ▸ hps)) (h ps hps), ?_⟩
  have hflat : ∀ p ∈ texts.flatten, p.IsWritten := by
    intro p hp
    obtain ⟨ps, hps, hp⟩ := List.mem_flatten.mp hp
    exact h ps hps p hp
  rw [foldl_collect_text h, ← text_flatten hne, collect_text_snd t hflat]

/-- Two texts: the body of a definition goes over two lines, and looks itself like definitions; the
second text defines the name once more, in another way. -/
def suite : List (List Passage) :=
  [[.plain "measure 1".toList,
      .definition ⟨.keyword, "riff".toList, "c4 $x = \x7b d4\nmacro y =".toList⟩,
      .plain "macros: e4 macro_".toList],
    [.definition ⟨.sign, "x1".toList, [' ']⟩, .definition ⟨.sign, "riff".toList, "f4  g4".toList⟩]]

theorem collect_text_suite :
    [] ∉ suite ∧ (∀ ps ∈ suite, ∀ p ∈ ps, p.IsWritten) ∧
      (∀ ps ∈ suite, Takes ∅ ps (collect ∅ (text ps)).1 (collect ∅ (text ps)).2) ∧
      suite.foldl (fun t ps ↦ (t.collect (text ps)).2) ∅ =
        (collect ∅ (unlines (suite.map text))).2 ∧
      (collect ∅ (unlines (suite.map text))).2.entries = [("riff", "f4 g4"), ("x1", "")] := by
  have hne : [] ∉ suite := by decide
  have h : ∀ ps ∈ suite, ∀ p ∈ ps, p.IsWritten := by decide +kernel
  obtain ⟨htexts, hjoin⟩ := collect_text hne h ∅
  refine ⟨hne, h, htexts, hjoin, ?_⟩
  rw [← hjoin]
  decide +kernel

end Table

end TextScore.Macro
