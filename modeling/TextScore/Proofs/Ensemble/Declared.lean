import TextScore.Proofs.Ensemble.Marks

/-!
# What the declarations of a text make

The ensemble has the declared instruments in the order of their first declarations, each as it is
shown by its last one, and its groups have the same instruments in the same order.

First and last are not in contradiction.  A second declaration replaces the instrument where it
stands, and it does not move it, neither among the instruments nor among the groups.

## What is here

* `Declaration.ids`, `Declaration.lastName?` — the ids that are declared, and the name of each.
* `Ensemble.Declares` — what an ensemble has from some declarations.
* `Collecting.Holds` — the same while marks are read; the open group stands behind the closed ones.
* `Ensemble.declares_collect` — the ensemble of a text has what its declarations say.

The groups are looked at as one list of members.  Where it is cut into groups is another matter, see
`TextScore.Proofs.Ensemble.DefaultGroup`; that each id occurs once in it, and in which order, is the
same for every way of cutting.
-/

set_option autoImplicit false

namespace TextScore

open Text

/-! ## First occurrences -/

/-- An item more is a first occurrence if it did not occur before. -/
theorem eraseDups_concat (as : List String) (a : String) :
    (as ++ [a]).eraseDups = if a ∈ as then as.eraseDups else as.eraseDups ++ [a] := by
  rw [List.eraseDups_append]
  by_cases h : a ∈ as
  · simp [List.removeAll, h]
  · simp [List.removeAll, h]
    rfl

theorem nodup_eraseDups (as : List String) : as.eraseDups.Nodup := by
  induction as using List.reverseRecOn with
  | nil => exact .nil
  | append_singleton as a ih =>
    rw [eraseDups_concat]
    split
    case isTrue => exact ih
    case isFalse h =>
      refine List.nodup_append.mpr ⟨ih, List.pairwise_singleton _ _, fun b hb c hc ↦ ?_⟩
      rw [List.mem_singleton.mp hc]
      exact fun hba ↦ h (hba ▸ List.mem_eraseDups.mp hb)

/-- In a list without repetitions all occurrences are first ones. -/
theorem eraseDups_eq_self {as : List String} (h : as.Nodup) : as.eraseDups = as := by
  induction as using List.reverseRecOn with
  | nil => rfl
  | append_singleton as a ih =>
    obtain ⟨has, -, hdisjoint⟩ := List.nodup_append.mp h
    have ha : a ∉ as := fun ha ↦ hdisjoint a ha a (List.mem_singleton_self a) rfl
    rw [eraseDups_concat, if_neg ha, ih has]

/-- Items more have as first occurrences their own ones that did not occur before. -/
theorem eraseDups_append_filter (as bs : List String) :
    (as ++ bs).eraseDups = as.eraseDups ++ (bs.filter (· ∉ as.eraseDups)).eraseDups := by
  rw [List.eraseDups_append, List.removeAll]
  refine congrArg (fun ks ↦ as.eraseDups ++ List.eraseDups ks) (List.filter_congr fun b _ ↦ ?_)
  simp

/-- The names of a map are those that have a value. -/
theorem OrderedMap.isSome_get?_iff {β : Type} (m : OrderedMap β) (k : String) :
    (m.get? k).isSome = true ↔ k ∈ m.keys := by
  rw [get?, keys]
  induction m.entries with
  | nil => simp
  | cons e es ih =>
    rw [List.lookup_cons, List.map_cons, List.mem_cons, ← ih]
    by_cases h : k = e.1
    · simp [h]
    · have h' : (k == e.1) = false := by simpa using h
      simp [h, h']

/-! ## The declarations of a text -/

namespace Declaration

/-- The ids that are declared, in the order of their first declarations. -/
def ids (ds : List Declaration) : List String := (ds.map key).eraseDups

theorem ids_append_singleton (ds : List Declaration) (d : Declaration) :
    ids (ds ++ [d]) = if d.key ∈ ids ds then ids ds else ids ds ++ [d.key] := by
  rw [ids, List.map_append, List.map_singleton, eraseDups_concat]
  simp only [ids, List.mem_eraseDups]

/-- The name under which the last declaration of an id shows it. -/
def lastName? (ds : List Declaration) (id : String) : Option String :=
  (ds.filterMap fun d ↦ if d.key = id then some d.shownName else none).getLast?

/-- The instrument that is declared has the id and the name of the declaration. -/
theorem instrument_ok {d : Declaration} {i : Instrument} (h : d.instrument.value = .ok i) :
    i.id = d.key ∧ i.displayName = d.shownName := by
  rw [instrument, Noted.value_bind fun _ ↦ .pure _] at h
  obtain ⟨transpose, -, h⟩ := bind_eq_ok h
  cases h
  exact ⟨rfl, rfl⟩

end Declaration

/-! ## One declaration more -/

/-- An ensemble has what some declarations say: the instruments in the order of their first
declarations, grouped in this order, and each one shown as its last declaration says. -/
structure Ensemble.Declares (ds : List Declaration) (e : Ensemble) : Prop where
  /-- The ids of the instruments. -/
  keys : e.instruments.keys = Declaration.ids ds
  /-- The members of the groups. -/
  members : e.groups.flatMap Group.members = Declaration.ids ds
  /-- No group is empty. -/
  nonempty : ∀ g ∈ e.groups, g.members ≠ []
  /-- The names that are shown. -/
  names : ∀ id, (e.instruments.get? id).map Instrument.displayName = Declaration.lastName? ds id

namespace Collecting

/-- What is known of the ensemble behind some declarations. -/
structure Holds (inMeta : Bool) (ds : List Declaration) (c : Collecting) : Prop where
  /-- Whether a meta block is open. -/
  inMeta : c.inMeta = inMeta
  /-- The ids of the instruments. -/
  keys : c.ensemble.instruments.keys = Declaration.ids ds
  /-- The members of the closed groups, and behind them those of the open one. -/
  members : c.ensemble.groups.flatMap Group.members ++ c.members =
    Declaration.ids ds
  /-- No closed group is empty. -/
  nonempty : ∀ g ∈ c.ensemble.groups, g.members ≠ []
  /-- The names that are shown. -/
  names : ∀ id, (c.ensemble.instruments.get? id).map Instrument.displayName =
    Declaration.lastName? ds id

theorem flatMap_closedGroups (c : Collecting) :
    c.closedGroups.flatMap Group.members =
      c.ensemble.groups.flatMap Group.members ++ c.members := by
  rw [closedGroups]
  split
  case isTrue h => rw [List.isEmpty_iff.mp h, List.append_nil]
  case isFalse => rw [List.flatMap_append, List.flatMap_singleton, group]

theorem members_closedGroups {c : Collecting} (h : ∀ g ∈ c.ensemble.groups, g.members ≠ []) :
    ∀ g ∈ c.closedGroups, g.members ≠ [] := by
  intro g hg
  rw [closedGroups] at hg
  split at hg
  case isTrue => exact h g hg
  case isFalse hmembers =>
    rcases List.mem_append.mp hg with hg | hg
    · exact h g hg
    · rw [List.mem_singleton.mp hg]
      exact fun hnil ↦ hmembers (List.isEmpty_iff.mpr hnil)

namespace Holds

variable {inMeta : Bool} {ds : List Declaration} {c c' : Collecting}

theorem add (h : Holds inMeta ds c) {d : Declaration} {i : Instrument} (hid : i.id = d.key)
    (hname : i.displayName = d.shownName) : Holds inMeta (ds ++ [d]) (c.add i) := by
  have hmem : c.ensemble.instruments.contains i.id = true ↔ d.key ∈ Declaration.ids ds := by
    rw [OrderedMap.contains, OrderedMap.isSome_get?_iff, h.keys, hid]
  refine ⟨h.inMeta, ?_, ?_, h.nonempty, ?_⟩
  · show (c.ensemble.instruments.put i.id i).keys = _
    rw [OrderedMap.keys_put, h.keys, Declaration.ids_append_singleton, hid]
  · show c.ensemble.groups.flatMap Group.members ++
      (if c.ensemble.instruments.contains i.id then c.members else c.members ++ [i.id]) = _
    rw [Declaration.ids_append_singleton]
    by_cases hd : d.key ∈ Declaration.ids ds
    · rw [if_pos (hmem.mpr hd), if_pos hd, h.members]
    · rw [if_neg (mt hmem.mp hd), if_neg hd, ← List.append_assoc, h.members, hid]
  · intro id
    show ((c.ensemble.instruments.put i.id i).get? id).map _ = _
    rw [Declaration.lastName?, getLast?_filterMap_concat]
    by_cases hk : id = d.key
    · rw [hk, ← hid, OrderedMap.get?_put_self, if_pos rfl, ← hname]
      rfl
    · rw [OrderedMap.get?_put_of_ne (hid ▸ hk), if_neg (Ne.symm hk), Option.none_or, h.names id,
        Declaration.lastName?]

theorem reopen (h : Holds inMeta ds c) (heading? : Option String) :
    Holds inMeta ds (c.reopen heading?) where
  inMeta := h.inMeta
  keys := h.keys
  members := by
    show c.closedGroups.flatMap Group.members ++ [] = _
    rw [List.append_nil, flatMap_closedGroups, h.members]
  nonempty := members_closedGroups h.nonempty
  names := h.names

/-- One mark more declares what it is. -/
theorem mark (h : Holds inMeta ds c) {m : Mark} (hc : c.mark m = .ok c') :
    Holds inMeta (ds ++ m.declaration?.toList) c' := by
  cases m with
  | opened name =>
    cases hc
    rw [show (Mark.opened name).declaration?.toList = [] from rfl, List.append_nil]
    exact h.reopen _
  | closed =>
    cases hc
    rw [show Mark.closed.declaration?.toList = [] from rfl, List.append_nil]
    split
    · exact h.reopen none
    · exact h
  | declared d =>
    obtain ⟨i, hi, rfl⟩ := map_eq_ok hc
    obtain ⟨hid, hname⟩ := Declaration.instrument_ok hi
    exact h.add hid hname

end Holds

/-- What is known of the ensemble behind some lines. -/
theorem holds_foldlM {defaults : Defaults} {ls : List (Nat × List Char)} {c : Collecting}
    (h : (ls.foldlM readLine { ensemble := { defaults } }).value = .ok c) :
    Holds (MetaBlock.behind ls) (Declaration.ofLines ls) c := by
  rw [foldlM_readLine] at h
  obtain ⟨c, hc, rfl⟩ := map_eq_ok h
  have hholds : Holds false (Declaration.ofLines ls) c := by
    rw [← Mark.filterMap_ofLines]
    refine foldlM_invariant
      (P := fun past c ↦ Holds false (past.filterMap Mark.declaration?) c) ?_ ?_ hc
    · intro past c m c' h hc
      rw [Mark.filterMap_append_singleton]
      exact h.mark hc
    · exact ⟨rfl, rfl, rfl, fun _ hg ↦ absurd hg List.not_mem_nil, fun _ ↦ rfl⟩
  exact ⟨rfl, hholds.keys, hholds.members, hholds.nonempty, hholds.names⟩

end Collecting

/-- The ensemble of a text has what its declarations say. -/
theorem Ensemble.declares_collect {defaults : Defaults} {ls : List (Nat × List Char)}
    {e : Ensemble} (h : (collect defaults ls).value = .ok e) :
    e.Declares (Declaration.ofLines ls) := by
  rw [collect, Noted.value_bind fun _ ↦ .pure _] at h
  obtain ⟨c, hc, h⟩ := bind_eq_ok h
  cases h
  have hholds := Collecting.holds_foldlM hc
  refine ⟨hholds.keys, ?_, Collecting.members_closedGroups hholds.nonempty, hholds.names⟩
  rw [← hholds.members]
  exact c.flatMap_closedGroups

end TextScore
