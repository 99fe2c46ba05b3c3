import Mathlib.Data.List.Nodup
import TextScore.Proofs.Ensemble.Declared
import TextScore.Proofs.Ensemble.Notation

/-!
# Declarations are read back

A text that declares its instruments in full, section by section, has just these instruments and
groups, and nothing is reported.

This is the law of reading back for ensembles.  It holds but for one exception: a display name or an
id with the word `def` between blanks cuts its own line in two, though the name is in quotes.  With
that excluded by `Player.Uncut`, everything else is allowed in the quotes.  That the condition is
not too strong is `Player.splitDeclarations_line_iff`, and `collect_quoted` is a text that violates
it and declares an instrument that nobody meant.

## What is here

* `Collecting.Reads` — lines that are read without any report.
* `Collecting.Has` — what is known behind some sections and within another one.
* `Collecting.Has.reads_players`, `Collecting.Has.reads_sections` — one instrument, and one section,
  after the other.
* `Ensemble.collect_written` — the ensemble of the lines of some sections.
* `Ensemble.collect_quoted` — a display name in quotes can cut its declaration in two.

The ids have to be different from each other.  A second declaration of an id would be reported, and
it would belong to no second group.
-/

set_option autoImplicit false

namespace TextScore

open Text Number

/-- A new name goes to the end of a map. -/
theorem putEntry_of_not_mem {β : Type} {k : String} {es : List (String × β)}
    (h : k ∉ es.map Prod.fst) (v : β) : putEntry k v es = es ++ [(k, v)] := by
  induction es with
  | nil => rfl
  | cons e es ih =>
    rw [List.map_cons, List.mem_cons, not_or] at h
    rw [putEntry, if_neg (Ne.symm h.1), ih h.2, List.cons_append]

/-! ## Lines that are read without any report

`Reads` composes over lines, and its lemmas are about one line each: a header, an instrument, a
brace. -/

namespace Collecting

variable {c c₁ c₂ : Collecting} {p : Player} {n : Nat}

/-- Lines lead from `c` to `c'` without any report, however they are numbered. -/
def Reads (c : Collecting) (texts : List (List Char)) (c' : Collecting) : Prop :=
  ∀ ls : List (Nat × List Char), ls.map Prod.snd = texts → (ls.foldlM readLine c).Yields c'

namespace Reads

theorem nil (c : Collecting) : c.Reads [] c := by
  intro ls hls
  rw [List.map_eq_nil_iff.mp hls]
  exact .pure c

theorem cons {text : List Char} {texts : List (List Char)}
    (h : ∀ n, (c.readLine (n, text)).Yields c₁) (hs : c₁.Reads texts c₂) :
    c.Reads (text :: texts) c₂ := by
  intro ls hls
  obtain ⟨⟨n, t⟩, ls, rfl, rfl, htexts⟩ := List.map_eq_cons_iff.mp hls
  exact .foldlM_cons appends_readLine (h n) (hs ls htexts)

theorem append {texts texts' : List (List Char)} (h : c.Reads texts c₁) (h' : c₁.Reads texts' c₂) :
    c.Reads (texts ++ texts') c₂ := by
  intro ls hls
  obtain ⟨ls₁, ls₂, rfl, h₁, h₂⟩ := List.map_eq_append_iff.mp hls
  exact .foldlM_append appends_readLine (h ls₁ h₁) (h' ls₂ h₂)

end Reads

/-- What is known behind some sections, and in the middle of another one. -/
structure Has (done : List Section) (heading? : Option String) (players : List Player)
    (c : Collecting) : Prop where
  /-- No meta block is open. -/
  inMeta : c.inMeta = false
  /-- The open group. -/
  heading : c.heading? = heading?
  /-- Its members. -/
  members : c.members = players.map fun p ↦ String.ofList p.id
  /-- The instruments. -/
  entries : c.ensemble.instruments.entries =
    (done.flatMap Section.players ++ players).map Player.entry
  /-- The closed groups. -/
  groups : c.ensemble.groups = done.map Section.group

theorem has_start (defaults : Defaults) : Has [] none [] { ensemble := { defaults } } :=
  ⟨rfl, rfl, rfl, rfl, rfl⟩

theorem declare_line (hp : p.IsWritten)
    (hnew : c.ensemble.instruments.contains (String.ofList p.id) = false) :
    (declare n c p.line).Yields (c.add p.instrument) := by
  have hinstrument : (atLine n p.declaration.instrument).Yields p.instrument := by
    have h := p.outcome_instrument hp
    rw [Noted.outcome_eq, Prod.mk.injEq] at h
    constructor
    · rw [Noted.value_atLine, h.1]
    · rw [Pass.reports, atLine, Noted.notes_mapNotes, h.2, Array.map_empty]
      rfl
  have hcontains : c.ensemble.instruments.contains p.instrument.id = false := hnew
  rw [declare, Player.read?_line hp]
  refine .bind (fun i ↦ ?_) hinstrument ?_
  · split
    · exact .bind (.note _) fun _ ↦ .bind (.note _) fun _ ↦ .pure _
    · exact .bind (.note _) fun _ ↦ .pure _
  · dsimp only
    rw [hcontains]
    exact ⟨rfl, rfl⟩

theorem readLine_line (hc : c.inMeta = false) (hp : p.IsWritten) (hcut : p.Uncut)
    (hnew : c.ensemble.instruments.contains (String.ofList p.id) = false) :
    (c.readLine (n, p.line)).Yields (c.add p.instrument) := by
  have hstep : c.readLine (n, p.line) = declareAll n c p.line := by
    rw [readLine]
    dsimp only
    rw [Player.trim_line, step, hc]
    rfl
  rw [hstep, declareAll, Player.getLast?_line, if_neg Bool.false_ne_true,
    (Player.splitDeclarations_line_iff hp).mpr hcut]
  exact .bind (fun _ ↦ .pure _) (.foldlM_cons (appends_declare n) (declare_line hp hnew) (.pure _))
    (.pure _)

theorem splitDeclarations_nil : splitDeclarations [] = [] := by decide +kernel

theorem declareAll_nil (n : Nat) (c : Collecting) : (declareAll n c []).Yields c := by
  rw [declareAll]
  show ((splitDeclarations []).foldlM (declare n) c >>= fun c ↦ pure c).Yields c
  rw [splitDeclarations_nil]
  exact .pure c

theorem readLine_heading (hc : c.inMeta = false) {name : List Char} (hname : '"' ∉ name) :
    (c.readLine (n, Section.heading name)).Yields (c.reopen (String.ofList name)) := by
  have hlast : (Section.heading name).getLast? = some '{' := by
    have happend : Section.heading name =
        "group".toList ++ ' ' :: '"' :: (name ++ ['"', ' ']) ++ ['{'] := by simp [Section.heading]
    rw [happend, List.getLast?_concat]
  have htrim : trim (Section.heading name) = Section.heading name := by
    refine trim_eq_self (fun c hc ↦ by cases hc; decide) fun c hc ↦ ?_
    rw [hlast] at hc
    cases hc
    decide
  have hread : Heading.read? (Section.heading name) = some ⟨name, [' ', '{']⟩ := by
    rw [Heading.read?, Heading.front?, Section.heading, dropKeyword?_append]
    simp only [Option.bind_eq_bind, Option.bind_some]
    rw [dropBlanks?_space fun c hc ↦ by cases hc; decide, Option.bind_some,
      dropQuoted?_append hname]
    rfl
  -- nothing stands behind the brace, so the header declares nothing itself
  have hstep : c.readLine (n, Section.heading name) =
      (do
        note (.groupOpened (String.ofList name) n)
        declareAll n (c.reopen (String.ofList name)) []) := by
    rw [readLine]
    dsimp only
    rw [htrim, step, hc, hread]
    rfl
  rw [hstep]
  exact .bind (fun _ ↦ appends_declareAll _ _ _) ⟨rfl, rfl⟩ (declareAll_nil n _)

/-- A brace on its own closes the group that is open, if there is one. -/
theorem readLine_brace (hc : c.inMeta = false) :
    (c.readLine (n, ['}'])).Yields (if c.heading?.isSome then c.reopen none else c) := by
  have hstep : c.readLine (n, ['}']) = declareAll n c ['}'] := by
    rw [readLine]
    dsimp only
    rw [show trim ['}'] = ['}'] from rfl, step, hc]
    rfl
  rw [hstep, declareAll]
  show ((splitDeclarations []).foldlM (declare n) c >>= fun c ↦
    pure (if true && c.heading?.isSome then c.reopen none else c)).Yields _
  rw [splitDeclarations_nil, List.foldlM_nil, pure_bind, Bool.true_and]
  exact .pure _

/-! ## Sections

The induction is on sections, and within one on its instruments; the state between two lines is the
sections that are done and the instruments of the one that is open. -/

namespace Has

variable {done : List Section} {heading? : Option String} {players : List Player}

theorem contains_eq_false (h : c.Has done heading? players)
    (hnew : p.id ∉ (done.flatMap Section.players ++ players).map Player.id) :
    c.ensemble.instruments.contains (String.ofList p.id) = false := by
  rw [OrderedMap.contains, ← Bool.not_eq_true, OrderedMap.isSome_get?_iff, OrderedMap.keys,
    h.entries, List.map_map]
  intro hmem
  obtain ⟨q, hq, hid⟩ := List.mem_map.mp hmem
  exact hnew (List.mem_map.mpr ⟨q, hq, String.ofList_injective hid⟩)

/-- An instrument more joins the open section. -/
theorem add (h : c.Has done heading? players)
    (hnew : c.ensemble.instruments.contains (String.ofList p.id) = false) :
    (c.add p.instrument).Has done heading? (players ++ [p]) where
  inMeta := h.inMeta
  heading := h.heading
  members := by
    have hcontains : c.ensemble.instruments.contains p.instrument.id = false := hnew
    show (if c.ensemble.instruments.contains p.instrument.id then _ else _) = _
    rw [hcontains, if_neg Bool.false_ne_true, h.members, List.map_append]
    rfl
  entries := by
    have hkeys : String.ofList p.id ∉ c.ensemble.instruments.entries.map Prod.fst := by
      rw [← OrderedMap.keys, ← OrderedMap.isSome_get?_iff, Bool.not_eq_true]
      exact hnew
    show putEntry (String.ofList p.id) p.instrument c.ensemble.instruments.entries = _
    rw [putEntry_of_not_mem hkeys, h.entries, ← List.append_assoc]
    show _ ++ [p].map Player.entry = _
    exact List.map_append.symm
  groups := h.groups

/-- An open group without members does not count. -/
theorem closedGroups_eq (h : c.Has done heading? []) :
    c.closedGroups = done.map Section.group := by
  have hmembers : c.members.isEmpty = true := by
    rw [h.members]
    rfl
  rw [closedGroups, if_pos hmembers, h.groups]

/-- A section starts. -/
theorem reopen_some (h : c.Has done none []) (name : String) :
    (c.reopen name).Has done name [] where
  inMeta := h.inMeta
  heading := rfl
  members := rfl
  entries := h.entries
  groups := h.closedGroups_eq

/-- A section ends. -/
theorem reopen_none {s : Section} (hne : s.players ≠ [])
    (h : c.Has done (some (String.ofList s.name)) s.players) :
    (c.reopen none).Has (done ++ [s]) none [] where
  inMeta := h.inMeta
  heading := rfl
  members := rfl
  entries := by
    show c.ensemble.instruments.entries = _
    rw [h.entries, List.flatMap_append, List.flatMap_singleton, List.append_nil]
  groups := by
    have hmembers : ¬c.members.isEmpty = true := by
      rw [h.members, List.isEmpty_iff, List.map_eq_nil_iff]
      exact hne
    have hgroup : c.group = s.group := by
      rw [group, h.heading, h.members]
      rfl
    show c.closedGroups = _
    rw [closedGroups, if_neg hmembers, h.groups, hgroup, List.map_append]
    rfl

/-- The instruments of a section, one after the other. -/
theorem reads_players {more : List Player} (h : c.Has done heading? players)
    (hp : ∀ p ∈ more, p.IsWritten) (hcut : ∀ p ∈ more, p.Uncut)
    (hids : ((done.flatMap Section.players ++ players ++ more).map Player.id).Nodup) :
    ∃ c', c.Reads (more.map Player.line) c' ∧ c'.Has done heading? (players ++ more) := by
  induction more generalizing c players with
  | nil => exact ⟨c, .nil c, by rwa [List.append_nil]⟩
  | cons p more ih =>
    rw [List.forall_mem_cons] at hp hcut
    have hnew : p.id ∉ (done.flatMap Section.players ++ players).map Player.id := by
      rw [List.map_append, List.map_cons] at hids
      exact fun hmem ↦ List.disjoint_of_nodup_append hids hmem List.mem_cons_self
    have hcontains := h.contains_eq_false hnew
    -- the instrument moves over to those that have been read
    rw [List.append_cons, List.append_assoc (done.flatMap _)] at hids
    obtain ⟨c', hreads, hc'⟩ := ih (h.add hcontains) hp.2 hcut.2 hids
    rw [List.append_cons]
    exact ⟨c', .cons (fun n ↦ readLine_line h.inMeta hp.1 hcut.1 hcontains) hreads, hc'⟩

/-- A section, from its header to its closing brace. -/
theorem reads_section {s : Section} (h : c.Has done none []) (hs : s.IsWritten)
    (hcut : ∀ p ∈ s.players, p.Uncut)
    (hids : ((done.flatMap Section.players ++ s.players).map Player.id).Nodup) :
    ∃ c', c.Reads s.lines c' ∧ c'.Has (done ++ [s]) none [] := by
  have hopen := h.reopen_some (String.ofList s.name)
  obtain ⟨c', hreads, hc'⟩ := hopen.reads_players hs.players hcut (by simpa using hids)
  rw [List.nil_append] at hc'
  refine ⟨c'.reopen none, ?_, hc'.reopen_none hs.players_ne_nil⟩
  refine .cons (fun n ↦ readLine_heading h.inMeta hs.name_quote) (hreads.append ?_)
  refine .cons (fun n ↦ ?_) (.nil _)
  have hbrace := readLine_brace (n := n) hc'.inMeta
  rwa [hc'.heading, Option.isSome_some, if_pos rfl] at hbrace

/-- Sections, one after the other. -/
theorem reads_sections {more : List Section} (h : c.Has done none [])
    (hs : ∀ s ∈ more, s.IsWritten) (hcut : ∀ s ∈ more, ∀ p ∈ s.players, p.Uncut)
    (hids : (((done ++ more).flatMap Section.players).map Player.id).Nodup) :
    ∃ c', c.Reads (more.flatMap Section.lines) c' ∧ c'.Has (done ++ more) none [] := by
  induction more generalizing c done with
  | nil => exact ⟨c, .nil c, by rwa [List.append_nil]⟩
  | cons s more ih =>
    rw [List.forall_mem_cons] at hs hcut
    rw [List.append_cons] at hids ⊢
    have hids₁ : ((done.flatMap Section.players ++ s.players).map Player.id).Nodup := by
      rw [List.flatMap_append, List.flatMap_append, List.flatMap_singleton, List.map_append] at hids
      exact hids.of_append_left
    obtain ⟨c₁, hreads₁, hc₁⟩ := h.reads_section hs.1 hcut.1 hids₁
    obtain ⟨c₂, hreads₂, hc₂⟩ := ih hc₁ hs.2 hcut.2 hids
    exact ⟨c₂, hreads₁.append hreads₂, hc₂⟩

end Has

end Collecting

namespace Ensemble

/-- **Declarations are read back.**  The ensemble of the lines of some sections has their
instruments, in order and as they are declared, and their groups, and nothing is reported. -/
theorem collect_written (defaults : Defaults) {sections : List Section}
    {ls : List (Nat × List Char)} (hls : ls.map Prod.snd = sections.flatMap Section.lines)
    (hs : ∀ s ∈ sections, s.IsWritten) (hcut : ∀ s ∈ sections, ∀ p ∈ s.players, p.Uncut)
    (hids : ((sections.flatMap Section.players).map Player.id).Nodup) :
    (collect defaults ls).reports = [] ∧
      ∃ e, (collect defaults ls).value = .ok e ∧
        e.instruments.entries = (sections.flatMap Section.players).map Player.entry ∧
        e.groups = sections.map Section.group := by
  obtain ⟨c, hreads, hc⟩ := (Collecting.has_start defaults).reads_sections hs hcut hids
  rw [List.nil_append] at hc
  have hyields : (collect defaults ls).Yields c.finish :=
    .bind (fun _ ↦ .pure _) (hreads ls hls) (.pure _)
  refine ⟨hyields.reports, c.finish, hyields.value, ?_, ?_⟩
  · rw [← List.append_nil (sections.flatMap Section.players)]
    exact hc.entries
  · exact hc.closedGroups_eq

/-- Two sections, one of them without a name, with the keyword and an attribute in display names. -/
def orchestra : List Section :=
  [⟨"def \x7b".toList, [⟨"fl".toList, "def, a def".toList, "treble".toList, 0⟩,
      ⟨"cl".toList, "transpose=3 \x7d".toList, "treble".toList, -2⟩]⟩,
    ⟨[], [⟨"definitely".toList, " ".toList, "C3".toList, 12⟩]⟩]

theorem collect_written_orchestra :
    (numbered (unlines (orchestra.flatMap Section.lines))).map Prod.snd =
        orchestra.flatMap Section.lines ∧
      (∀ s ∈ orchestra, s.IsWritten) ∧ (∀ s ∈ orchestra, ∀ p ∈ s.players, p.Uncut) ∧
      ((orchestra.flatMap Section.players).map Player.id).Nodup ∧
      (collect {} (numbered (unlines (orchestra.flatMap Section.lines)))).reports = [] ∧
      ∃ e, (collect {} (numbered (unlines (orchestra.flatMap Section.lines)))).value = .ok e ∧
        e.instruments.entries = (orchestra.flatMap Section.players).map Player.entry ∧
        e.groups = orchestra.map Section.group := by
  have hls : (numbered (unlines (orchestra.flatMap Section.lines))).map Prod.snd =
      orchestra.flatMap Section.lines := by decide +kernel
  have hplayer (p : Player) (h : p ∈ orchestra.flatMap Section.players) :
      p.IsWritten ∧ p.Uncut := by
    have hall : ∀ p ∈ orchestra.flatMap Section.players,
        (p.id ≠ [] ∧ p.id.all isWord = true ∧ p.displayName ≠ [] ∧ '"' ∉ p.displayName ∧
          p.clef ≠ [] ∧ p.clef.all isAlphanumeric = true ∧ isWritable p.transpose = true) ∧
        ¬IsDef p.id ∧ ¬HoldsDef p.displayName := by decide +kernel
    obtain ⟨⟨hid, hword, hname, hquote, hclef, hclefWord, hwritable⟩, hdef, hholds⟩ := hall p h
    exact ⟨⟨hid, List.all_eq_true.mp hword, hname, hquote, hclef, List.all_eq_true.mp hclefWord,
      hwritable⟩, hdef, hholds⟩
  have hsection : ∀ s ∈ orchestra, '"' ∉ s.name ∧ s.players ≠ [] := by decide +kernel
  have hs : ∀ s ∈ orchestra, s.IsWritten := fun s hs ↦ ⟨(hsection s hs).1, (hsection s hs).2,
    fun p hp ↦ (hplayer p (List.mem_flatMap.mpr ⟨s, hs, hp⟩)).1⟩
  have hcut : ∀ s ∈ orchestra, ∀ p ∈ s.players, p.Uncut :=
    fun s hs p hp ↦ (hplayer p (List.mem_flatMap.mpr ⟨s, hs, hp⟩)).2
  have hids : ((orchestra.flatMap Section.players).map Player.id).Nodup := by decide +kernel
  exact ⟨hls, hs, hcut, hids, collect_written {} hls hs hcut hids⟩

/-- An instrument whose display name has the keyword between blanks. -/
def quoted : Section := ⟨['G'], [⟨['v'], "a def b".toList, ['c'], 1⟩]⟩

/-- The line is cut within the quotes, and it declares two instruments. -/
theorem collect_quoted :
    unlines quoted.lines =
        "group \"G\" \x7b\ndef v \"a def b\" clef=c transpose=+1\n\x7d".toList ∧
      (numbered (unlines quoted.lines)).map Prod.snd = quoted.lines ∧ quoted.IsWritten ∧
      (quoted.players.map Player.id).Nodup ∧
      ∃ e, (collect {} (numbered (unlines quoted.lines))).value = .ok e ∧
        e.instruments.values.map (fun i ↦ (i.id, i.displayName)) = [("v", "\"a"), ("b", "b")] ∧
        e.instruments.entries ≠ quoted.players.map Player.entry ∧
        e.groups ≠ [quoted.group] := by
  have hs : quoted.IsWritten := by
    refine ⟨by decide, List.cons_ne_nil _ _, fun p hp ↦ ?_⟩
    rw [List.mem_singleton.mp hp]
    exact ⟨by decide, List.all_eq_true.mp (by decide +kernel), by decide +kernel,
      by decide +kernel, by decide, List.all_eq_true.mp (by decide +kernel), by decide +kernel⟩
  obtain ⟨e, he, h⟩ := exists_ok_of_any
    (x := (collect {} (numbered (unlines quoted.lines))).value) (f := fun e ↦
      e.instruments.values.map (fun i ↦ (i.id, i.displayName)) = [("v", "\"a"), ("b", "b")] ∧
        e.instruments.entries ≠ quoted.players.map Player.entry ∧ e.groups ≠ [quoted.group])
    (by decide +kernel)
  exact ⟨by decide +kernel, by decide +kernel, hs, by decide, e, he, of_decide_eq_true h⟩

end Ensemble

end TextScore
