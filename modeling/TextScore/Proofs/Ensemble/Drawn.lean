import TextScore.Ensemble.Collect
import TextScore.Proofs.Drawn

/-!
# Where the names of an ensemble come from

Ids, names of instruments and names of groups are cut out of the lines that declare them.

* `Declaration.Within`, `Declaration.within_read?` — a declaration is made of parts of its text.
* `Ensemble.Drawn` — all texts of an ensemble are drawn from a source.
* `Ensemble.draws_collect` — they are if the lines and the defaults are.

The defaults count as a source of their own, since the name of the default group and the first
duration code come from there.
-/

set_option autoImplicit false

namespace TextScore

open Text

variable {src s : List Char}

/-! ## Declarations -/

theorem dropQuoted?_subset {q r : List Char} (h : dropQuoted? s = some (q, r)) : q ⊆ s ∧ r ⊆ s := by
  unfold dropQuoted? at h
  split at h
  case h_1 s =>
    split at h
    case h_1 c t ht =>
      cases h
      refine ⟨List.subset_cons_of_subset _ (takeWhile_subset _ s),
        List.subset_cons_of_subset _ fun d hd ↦ dropWhile_subset (· != '"') s ?_⟩
      rw [ht]
      exact List.mem_cons_of_mem c hd
    case h_2 => cases h
  case h_2 => cases h

theorem dropBlanks?_subset {r : List Char} (h : dropBlanks? s = some r) : r ⊆ s := by
  rw [dropBlanks?] at h
  split at h
  · cases h
    exact dropWhile_subset _ s
  · cases h

namespace Heading

theorem read?_subset {h : Heading} (hread : read? s = some h) : h.name ⊆ s ∧ h.rest ⊆ s := by
  replace hread := (Option.filter_eq_some_iff.mp hread).1
  rw [front?] at hread
  obtain ⟨t, ht, hread⟩ := Option.bind_eq_some_iff.mp hread
  obtain ⟨u, hu, hread⟩ := Option.bind_eq_some_iff.mp hread
  have hsub : u ⊆ s := List.Subset.trans (dropBlanks?_subset hu) (dropKeyword?_subset ht)
  split at hread
  case h_1 name rest hquoted =>
    cases hread
    obtain ⟨hname, hrest⟩ := dropQuoted?_subset hquoted
    exact ⟨List.Subset.trans hname hsub, List.Subset.trans hrest hsub⟩
  case h_2 =>
    dsimp only at hread
    split at hread
    · cases hread
    · cases hread
      exact ⟨List.Subset.trans (takeWhile_subset _ u) hsub,
        List.Subset.trans (dropWhile_subset _ u) hsub⟩

theorem declarations_subset (h : Heading) : h.declarations ⊆ h.rest :=
  List.Subset.trans (trim_subset _)
    (List.Subset.trans (List.drop_subset 1 _) (dropWhile_subset _ _))

end Heading

theorem readSeparator?_subset {x : Unit} {r : List Char} (h : readSeparator? s = some (x, r)) :
    r ⊆ s := by
  cases s with
  | nil => cases h
  | cons c s =>
    rw [readSeparator?] at h
    split at h
    · cases h
      exact List.subset_cons_of_subset c (dropWhile_subset _ s)
    · cases h

/-- The parts between pieces have no other characters than those outside of occurrences. -/
theorem plain_of_mem_parts {ps : List (Piece Unit)} {part : List Char}
    (h : part ∈ (ps.foldr partStep ([], [])).1 :: (ps.foldr partStep ([], [])).2) :
    ∀ c ∈ part, .plain c ∈ ps := by
  induction ps generalizing part with
  | nil =>
    obtain rfl := List.mem_singleton.mp h
    exact fun c hc ↦ absurd hc List.not_mem_nil
  | cons p ps ih =>
    have hmem {part : List Char}
        (h : part ∈ (ps.foldr partStep ([], [])).1 :: (ps.foldr partStep ([], [])).2) :
        ∀ c ∈ part, .plain c ∈ p :: ps := fun c hc ↦ List.mem_cons_of_mem p (ih h c hc)
    rw [List.foldr_cons] at h
    cases p with
    | plain d =>
      rcases List.mem_cons.mp h with rfl | h
      · exact List.forall_mem_cons.mpr ⟨List.mem_cons_self, hmem List.mem_cons_self⟩
      · exact hmem (List.mem_cons_of_mem _ h)
    | found =>
      rcases List.mem_cons.mp h with rfl | h
      · exact fun c hc ↦ absurd hc List.not_mem_nil
      · exact hmem h

theorem subset_of_mem_splitDeclarations {part : List Char} (h : part ∈ splitDeclarations s) :
    part ⊆ s := by
  intro c hc
  have hplain := plain_of_mem_parts (List.mem_filter.mp h).1 c hc
  obtain ⟨d, hd, heq⟩ | ⟨b, t, a, r, -, -, heq⟩ :=
    Recogniser.pieces_cases (p := separators) (fun h ↦ readSeparator?_subset h) hplain
  · cases heq
    exact hd
  · cases heq

namespace Attribute

theorem trimQuotes_subset (s : List Char) : trimQuotes s ⊆ s := fun _ hc ↦
  dropWhile_subset _ s (List.mem_reverse.mp (dropWhile_subset _ _ (List.mem_reverse.mp hc)))

theorem readValue?_subset {v r : List Char} (h : readValue? s = some (v, r)) : v ⊆ s ∧ r ⊆ s := by
  rw [readValue?] at h
  split at h
  case h_1 p hp =>
    cases h
    exact dropQuoted?_subset hp
  case h_2 =>
    dsimp only at h
    split at h
    · cases h
    · cases h
      exact ⟨takeWhile_subset _ s, dropWhile_subset _ s⟩

theorem read?_subset {a : Attribute} {r : List Char} (h : read? s = some (a, r)) :
    a.value ⊆ s ∧ r ⊆ s := by
  rw [read?] at h
  split at h
  · cases h
  split at h
  case h_1 t ht =>
    obtain ⟨⟨v, u⟩, hvalue, ha⟩ := Option.map_eq_some_iff.mp h
    cases ha
    obtain ⟨hv, hu⟩ := readValue?_subset hvalue
    have hsub : t.dropWhile isBlank ⊆ s := by
      refine List.Subset.trans (dropWhile_subset _ t) fun c hc ↦ ?_
      refine dropWhile_subset isKeyChar s (dropWhile_subset isBlank _ ?_)
      rw [ht]
      exact List.mem_cons_of_mem _ hc
    exact ⟨List.Subset.trans (trimQuotes_subset v) (List.Subset.trans hv hsub),
      List.Subset.trans hu hsub⟩
  case h_2 => cases h

/-- The values of attributes are parts of the text. -/
theorem value?_subset {key v : List Char} (h : value? (all s) key = some v) : v ⊆ s := by
  obtain ⟨a, ha, rfl⟩ := Option.map_eq_some_iff.mp h
  obtain ⟨b, t, r, ht, hread⟩ := Recogniser.exists_of_mem_found (p := recogniser)
    (fun h ↦ (read?_subset h).2) (List.mem_reverse.mp (List.mem_of_find?_eq_some ha))
  exact List.Subset.trans (read?_subset hread).1 ht

end Attribute

namespace Declaration

/-- The texts of a declaration that can be shown are parts of a text. -/
structure Within (s : List Char) (d : Declaration) : Prop where
  /-- The name on staff lines. -/
  id : d.id ⊆ s
  /-- The name that is shown. -/
  displayName : d.displayName ⊆ s
  /-- The transposition. -/
  transpose : ∀ v, d.transpose? = some v → v ⊆ s

theorem splitDisplayName_subset (s : List Char) :
    (splitDisplayName s).1 ⊆ s ∧ (splitDisplayName s).2 ⊆ s := by
  have hnone : ([] : List Char) ⊆ s ∧ s ⊆ s := ⟨List.nil_subset s, List.Subset.refl s⟩
  rw [splitDisplayName]
  split
  case h_1 => exact hnone
  case h_2 r hr =>
    have hsub := dropBlanks?_subset hr
    split
    case h_1 p hp =>
      obtain ⟨hname, hrest⟩ := dropQuoted?_subset hp
      exact ⟨List.Subset.trans hname hsub, List.Subset.trans hrest hsub⟩
    case h_2 =>
      split
      · exact hnone
      dsimp only
      split
      · exact hnone
      · exact ⟨List.Subset.trans (takeWhile_subset _ r) hsub,
          List.Subset.trans (dropWhile_subset _ r) hsub⟩

theorem within_readFull? {d : Declaration} (h : readFull? s = some d) : d.Within s := by
  rw [readFull?] at h
  obtain ⟨t, ht, h⟩ := Option.bind_eq_some_iff.mp h
  obtain ⟨r, hr, h⟩ := Option.bind_eq_some_iff.mp h
  have hsub : r ⊆ s := List.Subset.trans (dropBlanks?_subset hr) (dropKeyword?_subset ht)
  have hrest : r.dropWhile isWord ⊆ s := List.Subset.trans (dropWhile_subset _ r) hsub
  dsimp only at h
  split at h
  · cases h
  split at h
  · cases h
  · cases h
    obtain ⟨hname, hattributes⟩ := splitDisplayName_subset (r.dropWhile isWord)
    exact {
      id := List.Subset.trans (takeWhile_subset _ r) hsub
      displayName := List.Subset.trans hname hrest
      transpose := fun v hv ↦ List.Subset.trans (Attribute.value?_subset hv)
        (List.Subset.trans hattributes hrest) }

theorem within_readShort? {d : Declaration} (h : readShort? s = some d) : d.Within s := by
  unfold readShort? at h
  split at h
  case h_1 t =>
    obtain ⟨r, hr, h⟩ := Option.bind_eq_some_iff.mp h
    split at h
    case h_1 id marks hwords =>
      split at h
      · cases h
        have hid : id ∈ words r := by
          rw [hwords]
          exact List.mem_cons_self
        exact {
          id := List.Subset.trans (subset_of_mem_words hid)
            (List.subset_cons_of_subset _ (dropBlanks?_subset hr))
          displayName := List.nil_subset _
          transpose := fun _ hv ↦ by cases hv }
      · cases h
    case h_2 => cases h
  case h_2 => cases h

/-- A declaration is made of parts of its text. -/
theorem within_read? {d : Declaration} (h : read? s = some d) : d.Within s := by
  rw [read?] at h
  cases hfull : readFull? s with
  | some d' =>
    rw [hfull] at h
    cases h
    exact within_readFull? hfull
  | none =>
    rw [hfull] at h
    exact within_readShort? h

end Declaration

/-- The id and the name of an instrument are drawn from a source. -/
structure Instrument.Drawn (src : List Char) (i : Instrument) : Prop where
  /-- The name on staff lines. -/
  id : DrawnFrom src i.id.toList
  /-- The name that is shown. -/
  displayName : DrawnFrom src i.displayName.toList

namespace Declaration.Within

variable {d : Declaration}

theorem ensures_semitones (h : d.Within s) (hs : DrawnFrom src s) :
    d.semitones.Ensures (Problem.Drawn src) fun _ ↦ True := by
  rw [semitones]
  cases hvalue : d.transpose? with
  | none => exact .pure trivial
  | some value =>
    dsimp only
    split
    · exact .ofExcept fun _ _ ↦ trivial
    · refine .bind (.note ?_) fun _ _ ↦ .pure trivial
      simp only [Problem.Drawn, Problem.texts, List.forall_mem_cons, String.toList_ofList]
      exact ⟨hs.subset (h.transpose value hvalue), hs.subset h.id,
        fun _ ht ↦ absurd ht List.not_mem_nil⟩

theorem ensures_instrument (h : d.Within s) (hs : DrawnFrom src s) :
    d.instrument.Ensures (Problem.Drawn src) (Instrument.Drawn src) := by
  refine .bind (h.ensures_semitones hs) fun _ _ ↦ .pure ⟨?_, ?_⟩
  · rw [String.toList_ofList]
    exact hs.subset h.id
  · rw [String.toList_ofList]
    split
    · exact hs.subset h.id
    · exact hs.subset h.displayName

end Declaration.Within

/-! ## Ensembles -/

/-- The codes that a staff remembers are drawn from a source. -/
structure Staff.Drawn (src : List Char) (st : Staff) : Prop where
  /-- The last code written without a grid. -/
  lastDuration : DrawnFrom src st.lastDuration.toList
  /-- The code for notes without one. -/
  grid : ∀ code, st.grid? = some code → DrawnFrom src code.toList

/-- The name of a group and the ids of its members are drawn from a source. -/
structure Group.Drawn (src : List Char) (g : Group) : Prop where
  /-- The name of the group. -/
  name : DrawnFrom src g.name.toList
  /-- The ids of its instruments. -/
  members : ∀ id ∈ g.members, DrawnFrom src id.toList

/-- The texts among the defaults are drawn from a source. -/
structure Defaults.Drawn (src : List Char) (d : Defaults) : Prop where
  /-- The duration code of a note that names none. -/
  duration : DrawnFrom src d.duration.toList
  /-- The group of instruments declared outside every group. -/
  groupName : DrawnFrom src d.groupName.toList

theorem Defaults.Drawn.newStaff {d : Defaults} (h : d.Drawn src) : d.newStaff.Drawn src :=
  ⟨h.duration, fun _ hcode ↦ by cases hcode⟩

/-- The texts of an ensemble are drawn from a source. -/
structure Ensemble.Drawn (src : List Char) (e : Ensemble) : Prop where
  /-- What a new staff starts from. -/
  defaults : e.defaults.Drawn src
  /-- The instruments. -/
  instruments : ∀ id i, e.instruments.get? id = some i → i.Drawn src
  /-- Their staves. -/
  staves : ∀ id st, e.staves.get? id = some st → st.Drawn src
  /-- The groups. -/
  groups : ∀ g ∈ e.groups, g.Drawn src

namespace Ensemble.Drawn

variable {e : Ensemble}

theorem register (h : e.Drawn src) {i : Instrument} (hi : i.Drawn src) :
    (e.register i).Drawn src :=
  ⟨h.defaults, OrderedMap.forall_put h.instruments hi,
    OrderedMap.forall_put h.staves h.defaults.newStaff, h.groups⟩

theorem setStaff (h : e.Drawn src) (id : String) {st : Staff} (hst : st.Drawn src) :
    (e.setStaff id st).Drawn src :=
  ⟨h.defaults, h.instruments, OrderedMap.forall_put h.staves hst, h.groups⟩

theorem staff (h : e.Drawn src) {id : String} {st : Staff} (hst : e.staff id = .ok st) :
    st.Drawn src := by
  rw [Ensemble.staff] at hst
  split at hst
  case h_1 st' hget =>
    cases hst
    exact h.staves id _ hget
  case h_2 => cases hst

/-- An instrument that nobody declared has the name under which it was met. -/
theorem resolve (h : e.Drawn src) {id : String} (hid : DrawnFrom src id.toList) :
    (e.resolve id).1.Drawn src ∧ (e.resolve id).2.1.Drawn src := by
  rw [Ensemble.resolve]
  cases hget : e.instruments.get? id with
  | some i => exact ⟨h.instruments id i hget, h⟩
  | none =>
    have hi : (Instrument.undeclared id).Drawn src := ⟨hid, hid⟩
    exact ⟨hi, h.register hi⟩

end Ensemble.Drawn

/-! ## Collecting -/

namespace Collecting

/-- The texts of all that is known are drawn from a source. -/
structure Drawn (src : List Char) (c : Collecting) : Prop where
  /-- The instruments and the groups that are closed. -/
  ensemble : c.ensemble.Drawn src
  /-- The open group. -/
  group : c.group.Drawn src

namespace Drawn

variable {c : Collecting}

theorem start {defaults : Defaults} (h : defaults.Drawn src) :
    Drawn src { ensemble := { defaults } } where
  ensemble := {
    defaults := h
    instruments := fun _ _ hi ↦ by cases hi
    staves := fun _ _ hst ↦ by cases hst
    groups := fun _ hg ↦ absurd hg List.not_mem_nil }
  group := ⟨h.groupName, fun _ hid ↦ absurd hid List.not_mem_nil⟩

theorem finish (h : c.Drawn src) : c.finish.Drawn src where
  defaults := h.ensemble.defaults
  instruments := h.ensemble.instruments
  staves := h.ensemble.staves
  groups := by
    show ∀ g ∈ c.closedGroups, g.Drawn src
    rw [closedGroups]
    split
    · exact h.ensemble.groups
    · rw [List.forall_mem_append, List.forall_mem_singleton]
      exact ⟨h.ensemble.groups, h.group⟩

theorem reopen (h : c.Drawn src) {heading? : Option String}
    (hname : ∀ name, heading? = some name → DrawnFrom src name.toList) :
    (c.reopen heading?).Drawn src where
  ensemble := h.finish
  group := by
    refine ⟨?_, fun _ hid ↦ absurd hid List.not_mem_nil⟩
    show DrawnFrom src (heading?.getD c.ensemble.defaults.groupName).toList
    cases heading? with
    | none => exact h.ensemble.defaults.groupName
    | some name => exact hname name rfl

theorem add (h : c.Drawn src) {i : Instrument} (hi : i.Drawn src) : (c.add i).Drawn src where
  ensemble := h.ensemble.register hi
  group := by
    refine ⟨h.group.name, ?_⟩
    show ∀ id ∈ if c.ensemble.instruments.contains i.id then c.members else c.members ++ [i.id],
      DrawnFrom src id.toList
    split
    · exact h.group.members
    · rw [List.forall_mem_append, List.forall_mem_singleton]
      exact ⟨h.group.members, hi.id⟩

end Drawn

theorem draws_declare (line : Nat) {c : Collecting} (hc : c.Drawn src) (hs : DrawnFrom src s) :
    (declare line c s).Draws src (Drawn src) := by
  rw [declare]
  cases hread : Declaration.read? s with
  | none => exact .pure hc
  | some d =>
    have hinstrument := (Declaration.within_read? hread).ensures_instrument hs
    refine .bind (Pass.draws_atLine hinstrument) fun i hi ↦ ?_
    have hrest : Pass.Draws src (Drawn src) (do
        note (.instrumentDeclared i.id i.displayName)
        return c.add i) :=
      .bind (.note trivial) fun _ _ ↦ .pure (hc.add hi)
    dsimp only
    split
    · refine .bind (.note ?_) fun _ _ ↦ hrest
      exact List.forall_mem_singleton.mpr hi.id
    · exact hrest

theorem draws_declareAll (line : Nat) {c : Collecting} (hc : c.Drawn src) (hs : DrawnFrom src s) :
    (declareAll line c s).Draws src (Drawn src) := by
  have htext : (if s.getLast? == some '}' then trim s.dropLast else s) ⊆ s := by
    split
    · exact List.Subset.trans (trim_subset _) (List.dropLast_subset s)
    · exact List.Subset.refl s
  refine .bind (.foldlM (fun c part hpart hc ↦ ?_) hc) fun c hc ↦ .pure ?_
  · exact draws_declare line hc
      (hs.subset (List.Subset.trans (subset_of_mem_splitDeclarations hpart) htext))
  · split
    · exact hc.reopen fun _ hname ↦ by cases hname
    · exact hc

theorem draws_readLine {c : Collecting} (hc : c.Drawn src) {l : Nat × List Char}
    (hl : DrawnFrom src l.2) : (readLine c l).Draws src (Drawn src) := by
  have htrim : DrawnFrom src (trim l.2) := hl.subset (trim_subset _)
  rw [readLine, step]
  dsimp only
  split
  · exact .pure hc
  split
  · exact .pure ⟨hc.ensemble, hc.group⟩
  split
  · exact .pure ⟨hc.ensemble, hc.group⟩
  split
  case h_1 h hread =>
    obtain ⟨hname, hrest⟩ := Heading.read?_subset hread
    refine .bind (.note trivial) fun _ _ ↦ draws_declareAll l.1 (hc.reopen ?_)
      (htrim.subset (List.Subset.trans h.declarations_subset hrest))
    rintro _ ⟨⟩
    rw [String.toList_ofList]
    exact htrim.subset hname
  case h_2 =>
    split
    · exact draws_declareAll l.1 hc htrim
    · exact .pure hc

end Collecting

/-- The texts of an ensemble, and those in the problems on the way, come from its lines. -/
theorem Ensemble.draws_collect {defaults : Defaults} (hdefaults : defaults.Drawn src)
    {ls : List (Nat × List Char)} (hls : ∀ l ∈ ls, DrawnFrom src l.2) :
    (collect defaults ls).Draws src (Drawn src) :=
  .bind (.foldlM (fun _ l hl hc ↦ Collecting.draws_readLine hc (hls l hl)) (.start hdefaults))
    fun _ hc ↦ .pure hc.finish

end TextScore
