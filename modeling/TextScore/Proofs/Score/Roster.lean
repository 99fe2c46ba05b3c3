import TextScore.Proofs.Timeline.Roster

/-!
# The layout of a score and its instruments

A score shows its instruments twice: grouped in its layout, and in one list.  Both follow from the
declarations of the text and from the ids on its staff lines.  Whoever is in the layout is at the
front of the list, in the same order and under the same name; behind them stand those that nobody
declared, and each of these is reported once.

The invariant behind it is about the ensemble while it is collected: the members of the groups, one
group after the other, are the ids of the instruments in the order in which they were registered.
Groups are closed in several ways, and instruments are declared inside and outside of them and more
than once, but each of these steps keeps the two in line.  When the blocks are played, instruments
are only added behind the others.  This module takes these facts together and carries them to the
score.

What is stated of a score is a structure that speaks of declarations, of the ids on staff lines and
of the score, and of nothing between them (`Score.Roster`).  In it an id is shown with the name of
its last declaration, at the place of its first.

## What is here

* `Draft.layout_ok`, `Draft.layouts_ok` — the rows of the groups.
* `Draft.Stages.keys_reported` — the instruments in the end, and those reported as undeclared.
* `Draft.Stages.reported_once` — an undeclared instrument has one report and one diagnostic.
* `Score.Roster` — what is shown of the declarations and the ids that play.
* `Score.roster_ofText` — every compiled score shows just this.
-/

set_option autoImplicit false

namespace TextScore

variable {β : Type}

/-! ## Maps and their values

An instrument is listed under its own id, so the list of instruments is known from the map of
them. -/

namespace OrderedMap

theorem lookup_eq_some_iff {es : List (String × β)} (hnodup : (es.map Prod.fst).Nodup)
    {k : String} {v : β} : es.lookup k = some v ↔ (k, v) ∈ es := by
  induction es with
  | nil => simp
  | cons e es ih =>
    rw [List.map_cons, List.nodup_cons] at hnodup
    rw [List.lookup_cons, List.mem_cons]
    by_cases hk : k = e.1
    · have hnot : (k, v) ∉ es := fun hv ↦
        hnodup.1 (hk ▸ List.mem_map.mpr ⟨(k, v), hv, rfl⟩)
      subst hk
      simp only [beq_self_eq_true, Option.some.injEq, hnot, or_false]
      constructor
      · rintro rfl
        rfl
      · intro hv
        rw [← hv]
    · have hbeq : (k == e.1) = false := by simpa using hk
      have hne : (k, v) ≠ e := fun he ↦ hk (congrArg Prod.fst he)
      simp only [hbeq, hne, false_or]
      exact ih hnodup.2

theorem get?_eq_some_iff (m : OrderedMap β) {k : String} {v : β} :
    m.get? k = some v ↔ (k, v) ∈ m.entries :=
  lookup_eq_some_iff m.nodup_keys

end OrderedMap

namespace Ensemble

/-- An instrument is listed if it stands under its id. -/
theorem mem_values_iff (e : Ensemble) {i : Instrument} :
    i ∈ e.instruments.values ↔ e.instruments.get? i.id = some i := by
  rw [OrderedMap.get?_eq_some_iff, OrderedMap.values, List.mem_map]
  constructor
  · rintro ⟨⟨k, j⟩, hmem, rfl⟩
    have hid := e.keyed k j (e.instruments.get?_eq_some_iff.mpr hmem)
    rw [hid]
    exact hmem
  · intro hmem
    exact ⟨_, hmem, rfl⟩

/-- The instruments are listed in the order of their ids. -/
theorem map_id_values (e : Ensemble) :
    e.instruments.values.map Instrument.id = e.instruments.keys := by
  rw [OrderedMap.values, OrderedMap.keys, List.map_map]
  refine List.map_congr_left ?_
  rintro ⟨k, i⟩ hmem
  exact e.keyed k i (e.instruments.get?_eq_some_iff.mpr hmem)

/-- Whoever is known plays as known. -/
theorem get?_eq_player (e : Ensemble) {k : String} (h : k ∈ e.instruments.keys) :
    e.instruments.get? k = some (e.player k) := by
  obtain ⟨i, hi⟩ := Option.isSome_iff_exists.mp ((e.instruments.isSome_get?_iff k).mpr h)
  rw [player, hi, Option.getD_some]

/-- Whoever is not known is made up. -/
theorem player_of_not_mem (e : Ensemble) {k : String} (h : k ∉ e.instruments.keys) :
    e.player k = .undeclared k := by
  have hnone : e.instruments.get? k = none := by
    rw [← Option.not_isSome_iff_eq_none]
    exact mt (e.instruments.isSome_get?_iff k).mp h
  rw [player, hnone, Option.getD_none]

end Ensemble

/-! ## The layout

A row has the id of a member and the name that the instrument has in the end. -/

/-- The rows of a group are its members, each under its name. -/
theorem Draft.layout_ok {e : Ensemble} {g : Group} {l : GroupLayout} (h : layout e g = .ok l) :
    l.rows.map Row.id = g.members ∧
      ∀ r ∈ l.rows, (e.instruments.get? r.id).map Instrument.displayName = some r.name := by
  rw [layout] at h
  obtain ⟨rows, hrows, h⟩ := bind_eq_ok h
  cases h
  have hrow : List.Forall₂ (fun id (r : Row) ↦ r.id = id ∧
      (e.instruments.get? r.id).map Instrument.displayName = some r.name) g.members rows := by
    refine (mapM_ok hrows).imp ?_
    intro id r hr
    cases hi : e.instruments.get? id with
    | none =>
      rw [hi] at hr
      cases hr
    | some i =>
      rw [hi] at hr
      cases hr
      refine ⟨rfl, ?_⟩
      rw [hi]
      rfl
  clear h hrows
  dsimp only
  generalize g.members = ids at hrow ⊢
  induction hrow with
  | nil => exact ⟨rfl, fun _ hr ↦ absurd hr List.not_mem_nil⟩
  | cons hr _ ih =>
    refine ⟨by rw [List.map_cons, hr.1, ih.1], ?_⟩
    intro r hmem
    rcases List.mem_cons.mp hmem with rfl | hmem
    · exact hr.2
    · exact ih.2 r hmem

/-- The layout shows the groups, member by member. -/
theorem Draft.layouts_ok {e : Ensemble} {gs : List Group} {ls : List GroupLayout}
    (h : gs.mapM (layout e) = .ok ls) (hne : ∀ g ∈ gs, g.members ≠ []) :
    ls.flatMap (fun l ↦ l.rows.map Row.id) = gs.flatMap Group.members ∧
      (∀ l ∈ ls, l.rows ≠ []) ∧ ∀ l ∈ ls, ∀ r ∈ l.rows,
        (e.instruments.get? r.id).map Instrument.displayName = some r.name := by
  have hall := mapM_ok h
  clear h
  induction hall with
  | nil => exact ⟨rfl, fun _ hl ↦ absurd hl List.not_mem_nil, fun _ hl ↦ absurd hl List.not_mem_nil⟩
  | @cons g l gs ls hl _ ih =>
    obtain ⟨hids, hnames⟩ := layout_ok hl
    obtain ⟨ihids, ihne, ihnames⟩ := ih fun g hg ↦ hne g (List.mem_cons_of_mem _ hg)
    refine ⟨by rw [List.flatMap_cons, List.flatMap_cons, hids, ihids], ?_, ?_⟩
    · intro l' hl'
      rcases List.mem_cons.mp hl' with rfl | hl'
      · intro hnil
        rw [hnil] at hids
        exact hne g List.mem_cons_self hids.symm
      · exact ihne l' hl'
    · intro l' hl'
      rcases List.mem_cons.mp hl' with rfl | hl'
      · exact hnames
      · exact ihnames l' hl'

/-! ## Reports

Ids that are reported as undeclared are distinct, since an instrument is known from its report
on. -/

theorem Problem.undeclared?_eq_some_iff {p : Problem} {id : String} :
    p.undeclared? = some id ↔ p = .undeclaredInstrument id := by
  cases p <;> simp [undeclared?]

/-- An id that is reported only once as undeclared has one report. -/
theorem Journal.filter_undeclared {rs : List (Nat × Problem)} {id : String}
    (hnodup : (undeclared rs).Nodup) (h : id ∈ undeclared rs) :
    ∃ line, rs.filter (·.2 = .undeclaredInstrument id) = [(line, .undeclaredInstrument id)] := by
  induction rs with
  | nil => exact absurd h List.not_mem_nil
  | cons r rs ih =>
    rw [undeclared_cons] at hnodup h
    cases hr : r.2.undeclared? with
    | none =>
      rw [hr, Option.toList_none, List.nil_append] at hnodup h
      have hne : ¬r.2 = .undeclaredInstrument id := by
        intro hid
        rw [Problem.undeclared?_eq_some_iff.mpr hid] at hr
        cases hr
      rw [List.filter_cons_of_neg (by simpa using hne)]
      exact ih hnodup h
    | some k =>
      rw [hr, Option.toList_some, List.singleton_append] at hnodup h
      rw [List.nodup_cons] at hnodup
      have hk := Problem.undeclared?_eq_some_iff.mp hr
      -- an id that is reported here is not reported again
      rcases List.mem_cons.mp h with rfl | hmem
      · have hrest : rs.filter (·.2 = .undeclaredInstrument id) = [] := by
          refine List.filter_eq_nil_iff.mpr fun s hs hid ↦ hnodup.1 ?_
          exact List.mem_filterMap.mpr
            ⟨s, hs, Problem.undeclared?_eq_some_iff.mpr (of_decide_eq_true hid)⟩
        refine ⟨r.1, ?_⟩
        rw [List.filter_cons_of_pos (by simpa using hk), hrest, ← hk]
      · have hne : ¬r.2 = .undeclaredInstrument id := by
          intro hid
          obtain rfl := Problem.undeclaredInstrument.inj (hid.symm.trans hk)
          exact hnodup.1 hmem
        rw [List.filter_cons_of_neg (by simpa using hne)]
        exact ih hnodup.2 hmem

/-! ## Drafts

Each part of what is stated is shown of a draft first, from the stages that it has gone through. -/

namespace Draft.Stages

variable {defaults : Defaults} {text : List Char} {d : Draft} {e : Ensemble} {t : Timeline}

/-- The layout is that of the groups that the declarations make. -/
theorem layouts (h : Stages defaults text d e t) :
    d.groups.flatMap (fun g ↦ g.rows.map Row.id) = e.groups.flatMap Group.members ∧
      (∀ g ∈ d.groups, g.rows ≠ []) ∧ ∀ g ∈ d.groups, ∀ r ∈ g.rows,
        (t.assembly.ensemble.instruments.get? r.id).map Instrument.displayName = some r.name := by
  have hgroups := (Timeline.enrols_ofBlocks h.play).groups
  rw [← hgroups]
  refine layouts_ok h.groups ?_
  rw [hgroups]
  exact (Ensemble.declares_collect h.collect).nonempty

theorem groups_ids (h : Stages defaults text d e t) :
    d.groups.flatMap (fun g ↦ g.rows.map Row.id) =
      Declaration.ids (Declaration.ofLines (prepare text).1) :=
  h.layouts.1.trans (Ensemble.declares_collect h.collect).members

theorem row_declared (h : Stages defaults text d e t) {g : GroupLayout} (hg : g ∈ d.groups)
    {r : Row} (hr : r ∈ g.rows) :
    r.id ∈ Declaration.ids (Declaration.ofLines (prepare text).1) := by
  rw [← h.groups_ids]
  exact List.mem_flatMap.mpr ⟨g, hg, List.mem_map_of_mem hr⟩

theorem keys (h : Stages defaults text d e t) :
    t.assembly.ensemble.instruments.keys =
      ((Declaration.ofLines (prepare text).1).map Declaration.key ++
        d.body.blocks.flatMap Block.ids).eraseDups :=
  (Timeline.enrols_ofBlocks h.play).keys _ (Ensemble.declares_collect h.collect).keys

/-- Behind the declared instruments stand those that are reported as undeclared. -/
theorem keys_reported (h : Stages defaults text d e t) :
    t.assembly.ensemble.instruments.keys =
      Declaration.ids (Declaration.ofLines (prepare text).1) ++
        Journal.undeclared (ofText defaults text).reports := by
  rw [(Timeline.enrols_ofBlocks h.play).reported, (Ensemble.declares_collect h.collect).keys,
    h.undeclared]

theorem nodup_keys (h : Stages defaults text d e t) :
    (Declaration.ids (Declaration.ofLines (prepare text).1) ++
      Journal.undeclared (ofText defaults text).reports).Nodup :=
  h.keys_reported ▸ t.assembly.ensemble.instruments.nodup_keys

theorem mem_instruments_iff (h : Stages defaults text d e t) {j : Journal} {i : Instrument} :
    i ∈ (d.score j).instruments ↔ t.assembly.ensemble.instruments.get? i.id = some i := by
  rw [score, h.ensemble, Ensemble.mem_values_iff]

/-- The instruments that were declared are still the same. -/
theorem name_declared (h : Stages defaults text d e t) {k : String}
    (hk : k ∈ Declaration.ids (Declaration.ofLines (prepare text).1)) :
    (t.assembly.ensemble.instruments.get? k).map Instrument.displayName =
      Declaration.lastName? (Declaration.ofLines (prepare text).1) k := by
  have hdeclares := Ensemble.declares_collect h.collect
  have henrols := Timeline.enrols_ofBlocks h.play
  have hold : k ∈ e.instruments.keys := by rwa [hdeclares.keys]
  have hnew : k ∈ t.assembly.ensemble.instruments.keys := by
    rw [henrols.reported]
    exact List.mem_append_left _ hold
  rw [Ensemble.get?_eq_player _ hnew, henrols.player, ← e.get?_eq_player hold, hdeclares.names]

/-- Every note is played by one of the instruments. -/
theorem exists_instrument (h : Stages defaults text d e t) {j : Journal} {n : NoteEvent}
    (hn : n ∈ (d.score j).events) :
    ∃ i ∈ (d.score j).instruments, i.id = n.instrumentId ∧ i.displayName = n.instrumentName := by
  have henrols := Timeline.enrols_ofBlocks h.play
  have hmem : n ∈ t.assembly.events := by
    rw [score, h.events, List.mem_mergeSort] at hn
    exact Array.mem_def.mpr hn
  rcases henrols.events n hmem with hold | ⟨hid, hname⟩
  · exact absurd hold (Array.not_mem_empty n)
  · have hkey : n.instrumentId ∈ t.assembly.ensemble.instruments.keys := by
      rw [h.keys, List.mem_eraseDups]
      exact List.mem_append_right _ hid
    have hplayer := t.assembly.ensemble.id_player n.instrumentId
    refine ⟨t.assembly.ensemble.player n.instrumentId, ?_, hplayer, ?_⟩
    · rw [h.mem_instruments_iff, hplayer]
      exact Ensemble.get?_eq_player _ hkey
    · rw [henrols.player, hname]

/-- An instrument without declaration is made up. -/
theorem eq_undeclared (h : Stages defaults text d e t) {i : Instrument}
    (hi : t.assembly.ensemble.instruments.get? i.id = some i)
    (hid : i.id ∉ Declaration.ids (Declaration.ofLines (prepare text).1)) :
    i = .undeclared i.id := by
  have hnew : i.id ∉ e.instruments.keys := by rwa [(Ensemble.declares_collect h.collect).keys]
  have hkey : i.id ∈ t.assembly.ensemble.instruments.keys := by
    rw [← OrderedMap.isSome_get?_iff, hi, Option.isSome_some]
  rw [← e.player_of_not_mem hnew, ← (Timeline.enrols_ofBlocks h.play).player]
  exact Option.some.inj (hi.symm.trans (Ensemble.get?_eq_player _ hkey))

/-- It is reported once. -/
theorem reported_once (h : Stages defaults text d e t) {i : Instrument}
    (hi : t.assembly.ensemble.instruments.get? i.id = some i)
    (hid : i.id ∉ Declaration.ids (Declaration.ofLines (prepare text).1)) :
    ∃ line, (ofText defaults text).reports.filter (·.2 = .undeclaredInstrument i.id) =
        [(line, .undeclaredInstrument i.id)] ∧
      (d.score (ofText defaults text).notes).diagnostics.filter
          (·.message = (Problem.undeclaredInstrument i.id).message) =
        [.ofProblem line (.undeclaredInstrument i.id)] := by
  have hkey : i.id ∈ t.assembly.ensemble.instruments.keys := by
    rw [← OrderedMap.isSome_get?_iff, hi, Option.isSome_some]
  rw [h.keys_reported] at hkey
  obtain ⟨line, hline⟩ := Journal.filter_undeclared (List.nodup_append.mp h.nodup_keys).2.1
    ((List.mem_append.mp hkey).resolve_left hid)
  exact ⟨line, hline, Journal.diagnostics_undeclared hline⟩

end Draft.Stages

/-! ## Scores

The diagnostics of a score are made of all reports, so an instrument that is reported once is one
diagnostic if no other problem has the same message. -/

namespace Score

/-- A score is that of its draft, and the journal ends with its summary. -/
theorem ofText_ok {defaults : Defaults} {text : String} {s : Score}
    (h : (ofText defaults text).1 = .ok s) :
    ∃ d, (Draft.ofText defaults text.toList).value = .ok d ∧
      s = d.score (Draft.ofText defaults text.toList).notes ∧
      (ofText defaults text).2.reports = (Draft.ofText defaults text.toList).reports := by
  rw [ofText_fst] at h
  obtain ⟨d, hd, rfl⟩ := map_eq_ok h
  refine ⟨d, hd, rfl, ?_⟩
  have hlast (j : Journal) (s : Score) : Journal.reports (j.push (d.summary s)) = j.reports := by
    rw [Journal.reports, Array.toList_push, List.filterMap_append]
    exact List.append_nil _
  rw [ofText, Noted.outcome_eq, hd]
  exact hlast _ _

/-- What a score shows of the declarations of its text and of the ids that are used on the staff
lines of its blocks. -/
structure Roster (ds : List Declaration) (used : List String) (j : Journal) (s : Score) : Prop where
  /-- The layout shows the declared ids in the order of their first declarations. -/
  groups : s.groups.flatMap (fun g ↦ g.rows.map Row.id) = Declaration.ids ds
  /-- It shows each of them once. -/
  distinct : (s.groups.flatMap fun g ↦ g.rows.map Row.id).Nodup
  /-- No group is empty. -/
  nonempty : ∀ g ∈ s.groups, g.rows ≠ []
  /-- Each row has the name of the last declaration. -/
  rows : ∀ g ∈ s.groups, ∀ r ∈ g.rows, Declaration.lastName? ds r.id = some r.name
  /-- The instruments are those of the layout and, behind them, those used without declaration, in
  the order of their first use. -/
  instruments : s.instruments.map Instrument.id =
    Declaration.ids ds ++ (used.filter (· ∉ Declaration.ids ds)).eraseDups
  /-- A declared instrument has the name of its last declaration. -/
  declared : ∀ i ∈ s.instruments, i.id ∈ Declaration.ids ds →
    Declaration.lastName? ds i.id = some i.displayName
  /-- Every note bears the id and the name of one of the instruments. -/
  events : ∀ n ∈ s.events, ∃ i ∈ s.instruments,
    i.id = n.instrumentId ∧ i.displayName = n.instrumentName
  /-- An instrument without declaration is made up, is in no group, and is reported once. -/
  madeUp : ∀ i ∈ s.instruments, i.id ∉ Declaration.ids ds →
    i.displayName = i.id ∧ i.transpose = 0 ∧ (∀ g ∈ s.groups, ∀ r ∈ g.rows, r.id ≠ i.id) ∧
    ∃ line, j.reports.filter (·.2 = .undeclaredInstrument i.id) =
        [(line, .undeclaredInstrument i.id)] ∧
      s.diagnostics.filter (·.message = (Problem.undeclaredInstrument i.id).message) =
        [.ofProblem line (.undeclaredInstrument i.id)]

/-- What a draft has of the declarations and of the ids that are used. -/
theorem Roster.of_stages {defaults : Defaults} {text : List Char} {d : Draft} {e : Ensemble}
    {t : Timeline} (h : Draft.Stages defaults text d e t) {j : Journal}
    (hj : j.reports = (Draft.ofText defaults text).reports) :
    Roster (Declaration.ofLines (Draft.prepare text).1) (d.body.blocks.flatMap Block.ids) j
      (d.score (Draft.ofText defaults text).notes) where
  groups := h.groups_ids
  distinct := h.groups_ids ▸ (List.nodup_append.mp h.nodup_keys).1
  nonempty := h.layouts.2.1
  rows := by
    intro g hg r hr
    rw [← h.name_declared (h.row_declared hg hr)]
    exact h.layouts.2.2 g hg r hr
  instruments := by
    show d.ensemble.instruments.values.map Instrument.id = _
    rw [h.ensemble, Ensemble.map_id_values, h.keys, eraseDups_append_filter]
    rfl
  declared := by
    intro i hi hid
    rw [← h.name_declared hid, h.mem_instruments_iff.mp hi]
    rfl
  events := by
    intro n hn
    exact h.exists_instrument hn
  madeUp := by
    intro i hi hid
    have hmade := h.eq_undeclared (h.mem_instruments_iff.mp hi) hid
    obtain ⟨line, hline, hdiagnostics⟩ := h.reported_once (h.mem_instruments_iff.mp hi) hid
    refine ⟨congrArg Instrument.displayName hmade, congrArg Instrument.transpose hmade, ?_, line,
      hj ▸ hline, hdiagnostics⟩
    intro g hg r hr hrid
    exact hid (hrid ▸ h.row_declared hg hr)

/-- **Layout and instruments agree**, in every score that compiles, with one another and with the
declarations of the text and the ids on the staff lines of its blocks. -/
theorem roster_ofText {defaults : Defaults} {text : String} {s : Score}
    (h : (ofText defaults text).1 = .ok s) :
    ∃ body, (Body.segment defaults (Draft.prepare text.toList).1).value = .ok body ∧
      Roster (Declaration.ofLines (Draft.prepare text.toList).1) (body.blocks.flatMap Block.ids)
        (ofText defaults text).2 s := by
  obtain ⟨d, hd, rfl, hreports⟩ := ofText_ok h
  obtain ⟨e, t, hstages⟩ := Draft.stages_ofText hd
  exact ⟨d.body, hstages.segment, .of_stages hstages hreports⟩

/-- Two groups, one of them on one line and one closed by the next header, an instrument outside of
them, one that is declared again, and two that nobody declared. -/
def grouped : String :=
  "group A \x7b def p P def q \x7d\nd r\ngroup B \x7b\ndef p Q\ndef u\nm 1\nq, v: r\nw: c\nv: r"

theorem roster_ofText_grouped :
    ∃ s, (ofText {} grouped).1 = .ok s ∧
      s.groups =
        [⟨"A", [⟨"p", "Q"⟩, ⟨"q", "q"⟩]⟩, ⟨"Ungrouped", [⟨"r", "r"⟩]⟩, ⟨"B", [⟨"u", "u"⟩]⟩] ∧
      s.instruments.map Instrument.id = ["p", "q", "r", "u", "v", "w"] ∧
      ∃ body, (Body.segment {} (Draft.prepare grouped.toList).1).value = .ok body ∧
        Roster (Declaration.ofLines (Draft.prepare grouped.toList).1)
          (body.blocks.flatMap Block.ids) (ofText {} grouped).2 s := by
  obtain ⟨s, hs, hshown⟩ := exists_ok_of_any (x := (ofText {} grouped).1) (f := fun s ↦
    s.groups = [⟨"A", [⟨"p", "Q"⟩, ⟨"q", "q"⟩]⟩, ⟨"Ungrouped", [⟨"r", "r"⟩]⟩, ⟨"B", [⟨"u", "u"⟩]⟩] ∧
      s.instruments.map Instrument.id = ["p", "q", "r", "u", "v", "w"]) (by decide +kernel)
  obtain ⟨hgroups, hinstruments⟩ := of_decide_eq_true hshown
  exact ⟨s, hs, hgroups, hinstruments, roster_ofText hs⟩

end Score

end TextScore
