import Mathlib.Data.List.Nodup
import Mathlib.Data.List.SplitBy
import TextScore.Proofs.Ensemble.Declared

/-!
# The default group

What is declared outside of every named group has its place in a default group.  It is not one group
only: a header ends it, and what is declared behind the end of the named group begins another one.

The documentation speaks of the default group, at the position at which it was first used.  The
reading makes a fresh one whenever something is declared outside after a header, so a layout can
have several groups of that name.  The theorem describes all of them: the ids that are declared
outside, cut wherever a header stands between two of them, are the default groups, in order, and the
first one stands where it should.  So there is one default group if and only if no header comes
between, and this is the exact condition under which the documentation is right.

## What is here

* `Mark.outside` — the ids that are declared outside of every named group.
* `DefaultGroups` — which default groups there are, and when there is one only.
* `Collecting.Gathers` — the same while marks are read.
* `Ensemble.defaultGroups_collect` — the default groups of a text.
* `Ensemble.parted_collect` — a text with two of them.

A named group may have the name of default groups, and then the two cannot be told apart by name;
the theorem asks that none has.
-/

set_option autoImplicit false

namespace TextScore

open Text

/-! ## Inside and outside

An id belongs where it was first declared; a later declaration in another place does not move it. -/

namespace Mark

/-- Where a group begins or ends: the name of the one that is open behind it. -/
def boundary? : Mark → Option (Option String)
  | opened name => some (some name)
  | closed => some none
  | declared _ => none

/-- The named group that is open behind some marks. -/
def group? (ms : List Mark) : Option String := (ms.filterMap boundary?).getLast?.join

/-- The ids that are declared, in the order of their first declarations. -/
def ids (ms : List Mark) : List String := Declaration.ids (ms.filterMap declaration?)

/-- The mark is a group header. -/
def isHeader : Mark → Bool
  | opened _ => true
  | _ => false

/-- The id that a mark declares for the first time, and outside of every named group, with the
number of group headers before it. -/
def outsideId? (past : List Mark) : Mark → Option (Nat × String)
  | declared d =>
    if d.key ∈ ids past ∨ (group? past).isSome then none else some (past.countP isHeader, d.key)
  | _ => none

/-- The ids that are first declared outside of every named group, each with the number of group
headers before it. -/
def outside (ms : List Mark) : List (Nat × String) :=
  (withPast [] ms).filterMap fun x ↦ outsideId? x.1 x.2

theorem group?_append_singleton (ms : List Mark) (m : Mark) :
    group? (ms ++ [m]) = (m.boundary?.getD (group? ms)) := by
  rw [group?, getLast?_filterMap_concat]
  cases m <;> rfl

theorem exists_opened_of_group? {ms : List Mark} {name : String} (h : group? ms = some name) :
    opened name ∈ ms := by
  rw [group?, Option.join_eq_some_iff] at h
  obtain ⟨m, hm, hname⟩ := List.mem_filterMap.mp (List.mem_of_getLast? h)
  cases m with
  | opened n =>
    cases hname
    exact hm
  | closed => cases hname
  | declared => cases hname

theorem outside_append_singleton (ms : List Mark) (m : Mark) :
    outside (ms ++ [m]) = outside ms ++ (outsideId? ms m).toList := by
  rw [outside, withPast_append, List.filterMap_append, ← outside, List.nil_append, withPast,
    List.filterMap_cons]
  dsimp only
  cases outsideId? ms m <;> rfl

end Mark

/-! ## Groups of the same name

A default group is known by the number of headers before it, which is the same for all of its ids
and different for different groups. -/

/-- The ids of a default group, and how many group headers are before it. -/
structure Batch where
  /-- The number of headers. -/
  headers : Nat
  /-- The ids. -/
  ids : List String

namespace Batch

/-- The ids with the number of headers before each one. -/
def numbered (b : Batch) : List (Nat × String) := b.ids.map fun id ↦ (b.headers, id)

/-- The default group. -/
def group (name : String) (b : Batch) : Group := ⟨name, b.ids⟩

variable {bs : List Batch}

/-- Batches are told apart by the numbers of headers. -/
theorem splitBy_numbered (hids : ∀ b ∈ bs, b.ids ≠ [])
    (hheaders : bs.Pairwise fun a b ↦ a.headers < b.headers) :
    (bs.flatMap numbered).splitBy (fun x y ↦ x.1 == y.1) = bs.map numbered := by
  have hfst {b : Batch} {x : Nat × String} (hx : x ∈ b.numbered) : x.1 = b.headers := by
    obtain ⟨id, -, rfl⟩ := List.mem_map.mp hx
    rfl
  rw [List.splitBy_eq_iff]
  -- three things characterise the cut: no piece is empty, the number is the same in a piece, and it
  -- differs between pieces
  refine ⟨List.flatMap_def, ?_, ?_, ?_⟩
  · intro hnil
    obtain ⟨b, hb, hempty⟩ := List.mem_map.mp hnil
    exact hids b hb (List.map_eq_nil_iff.mp hempty)
  · intro l hl
    obtain ⟨b, -, rfl⟩ := List.mem_map.mp hl
    refine List.Pairwise.isChain (List.pairwise_iff_forall_sublist.mpr fun {x y} hxy ↦ ?_)
    have hmem := hxy.subset
    simp only [List.cons_subset] at hmem
    rw [hfst hmem.1, hfst hmem.2.1, beq_self_eq_true]
  · refine List.Pairwise.isChain ?_
    rw [List.pairwise_map]
    refine hheaders.imp_of_mem fun {a b} ha hb hab ↦ ?_
    have hne {b : Batch} (hb : b ∈ bs) : b.numbered ≠ [] := mt List.map_eq_nil_iff.mp (hids b hb)
    refine ⟨hne ha, hne hb, ?_⟩
    rw [hfst (List.getLast_mem _), hfst (List.head_mem _)]
    exact beq_eq_false_iff_ne.mpr hab.ne

/-- There is one batch at most if all numbers are the same. -/
theorem length_le_one_iff (hids : ∀ b ∈ bs, b.ids ≠ [])
    (hheaders : bs.Pairwise fun a b ↦ a.headers < b.headers) :
    bs.length ≤ 1 ↔ ∀ x ∈ bs.flatMap numbered, ∀ y ∈ bs.flatMap numbered, x.1 = y.1 := by
  cases bs with
  | nil => simp
  | cons a bs =>
    cases bs with
    | nil =>
      simp [numbered]
    | cons b bs =>
      rw [List.pairwise_cons] at hheaders
      have hab := hheaders.1 b List.mem_cons_self
      refine iff_of_false (by simp) fun hsame ↦ ?_
      obtain ⟨x, hx⟩ := List.exists_mem_of_ne_nil _ (hids a List.mem_cons_self)
      obtain ⟨y, hy⟩ := List.exists_mem_of_ne_nil _
        (hids b (List.mem_cons_of_mem _ List.mem_cons_self))
      have := hsame (a.headers, x) (by simp [numbered, hx]) (b.headers, y) (by simp [numbered, hy])
      exact hab.ne this

end Batch

/-! ## Reading marks

The end of a named group is not the end of a default group: it begins an empty one, which is dropped
if nothing is declared in it. -/

namespace Collecting

variable {name : String} {ms : List Mark} {c c' : Collecting} {m : Mark}

/-- What is known of the default groups behind some marks. -/
structure Gathers (name : String) (ms : List Mark) (c : Collecting) : Prop where
  /-- The name of default groups. -/
  groupName : c.ensemble.defaults.groupName = name
  /-- The named group that is open. -/
  heading : c.heading? = Mark.group? ms
  /-- What is declared. -/
  holds : Holds c.inMeta (ms.filterMap Mark.declaration?) c
  /-- The default groups that are closed were closed by headers; an open one holds what is declared
  behind the last header. -/
  batches : ∃ bs : List Batch,
    c.ensemble.groups.filter (·.name = name) = bs.map (Batch.group name) ∧
      bs.Pairwise (fun a b ↦ a.headers < b.headers) ∧
      (∀ b ∈ bs, b.headers < ms.countP Mark.isHeader) ∧
      Mark.outside ms = bs.flatMap Batch.numbered ++
        if c.heading? = none then (Batch.mk (ms.countP Mark.isHeader) c.members).numbered else []

namespace Gathers

/-- With the open group the default groups have everything that is declared outside. -/
theorem closed (h : Gathers name ms c) (hname : c.heading? ≠ some name) : ∃ bs : List Batch,
    c.closedGroups.filter (·.name = name) = bs.map (Batch.group name) ∧
      bs.Pairwise (fun a b ↦ a.headers < b.headers) ∧
      (∀ b ∈ bs, b.headers < ms.countP Mark.isHeader + if c.heading? = none then 1 else 0) ∧
      Mark.outside ms = bs.flatMap Batch.numbered := by
  obtain ⟨bs, hgroups, hordered, hbefore, houtside⟩ := h.batches
  -- without members there is nothing to close
  by_cases hempty : c.members = []
  · refine ⟨bs, ?_, hordered, fun b hb ↦ Nat.lt_add_right _ (hbefore b hb), ?_⟩
    · rw [closedGroups, hempty]
      exact hgroups
    · rw [houtside, hempty]
      exact (congrArg _ (ite_self [])).trans (List.append_nil _)
  have hclosed : c.closedGroups = c.ensemble.groups ++ [c.group] := by
    rw [closedGroups, if_neg (by simpa using hempty)]
  rw [hclosed, List.filter_append, hgroups]
  cases hheading : c.heading? with
  | none =>
    -- the default group is one batch more, with the number of headers so far
    have hdefault : c.group = Batch.group name ⟨ms.countP Mark.isHeader, c.members⟩ := by
      rw [group, hheading, Option.getD_none, h.groupName, Batch.group]
    refine ⟨bs ++ [⟨ms.countP Mark.isHeader, c.members⟩], ?_, ?_, ?_, ?_⟩
    · rw [hdefault, List.map_append]
      simp [Batch.group]
    · refine List.pairwise_append.mpr ⟨hordered, List.pairwise_singleton _ _, ?_⟩
      intro a ha b hb
      rw [List.mem_singleton.mp hb]
      exact hbefore a ha
    · intro b hb
      rcases List.mem_append.mp hb with hb | hb
      · exact Nat.lt_add_right _ (hbefore b hb)
      · rw [List.mem_singleton.mp hb, if_pos rfl]
        exact Nat.lt_add_one _
    · rw [houtside, hheading, if_pos rfl, List.flatMap_append, List.flatMap_singleton]
  | some x =>
    -- a group with a name of its own is none of the batches
    have hx : x ≠ name := fun hx ↦ hname (hheading.trans (congrArg some hx))
    refine ⟨bs, ?_, hordered, fun b hb ↦ Nat.lt_add_right _ (hbefore b hb), ?_⟩
    · simp [group, hheading, hx]
    · rw [houtside, hheading, if_neg (Option.some_ne_none x), List.append_nil]

/-- One instrument more is declared in the open group, unless it was declared before. -/
theorem add (h : Gathers name ms c) {d : Declaration} {i : Instrument} (hid : i.id = d.key)
    (hname : i.displayName = d.shownName) : Gathers name (ms ++ [.declared d]) (c.add i) := by
  have hgroup : Mark.group? (ms ++ [.declared d]) = Mark.group? ms := by
    rw [Mark.group?_append_singleton]
    rfl
  have hcount : (ms ++ [Mark.declared d]).countP Mark.isHeader = ms.countP Mark.isHeader := by
    rw [List.countP_append]
    rfl
  have hmem : c.ensemble.instruments.contains i.id = true ↔ d.key ∈ Mark.ids ms := by
    rw [OrderedMap.contains, OrderedMap.isSome_get?_iff, h.holds.keys, hid, Mark.ids]
  have hheading : (c.add i).heading? = c.heading? := rfl
  have hmembers : (c.add i).members =
      if c.ensemble.instruments.contains i.id then c.members else c.members ++ [i.id] := rfl
  obtain ⟨bs, hgroups, hordered, hbefore, houtside⟩ := h.batches
  refine ⟨h.groupName, h.heading.trans hgroup.symm, ?_, bs, hgroups, hordered, by rwa [hcount], ?_⟩
  · rw [Mark.filterMap_append_singleton]
    exact h.holds.add hid hname
  rw [Mark.outside_append_singleton, Mark.outsideId?, houtside, hcount, List.append_assoc, hheading,
    hmembers, ← h.heading]
  congr 1
  -- only an instrument that is new and outside of named groups joins the batch that is open
  by_cases hnone : c.heading? = none
  · rw [if_pos hnone, if_pos hnone]
    by_cases hd : d.key ∈ Mark.ids ms
    · rw [if_pos (.inl hd), if_pos (hmem.mpr hd), Option.toList_none, List.append_nil]
    · rw [if_neg (by simp [hd, hnone]), if_neg (mt hmem.mp hd), hid]
      simp [Batch.numbered]
  · rw [if_neg hnone, if_neg hnone, if_pos (.inr (Option.isSome_iff_ne_none.mpr hnone))]
    rfl

/-- A header ends the open group and begins another one. -/
theorem reopen (h : Gathers name ms c) (hname : c.heading? ≠ some name) (x : String) :
    Gathers name (ms ++ [.opened x]) (c.reopen x) := by
  obtain ⟨bs, hgroups, hordered, hbefore, houtside⟩ := h.closed hname
  refine ⟨h.groupName, by rw [Mark.group?_append_singleton]; rfl, ?_, bs, hgroups, hordered, ?_, ?_⟩
  · rw [Mark.filterMap_append_singleton]
    exact (List.append_nil _).symm ▸ h.holds.reopen _
  · have hone : [Mark.opened x].countP Mark.isHeader = 1 := rfl
    intro b hb
    rw [List.countP_append, hone]
    exact (hbefore b hb).trans_le (Nat.add_le_add_left (by split <;> decide) _)
  · rw [Mark.outside_append_singleton, houtside]
    rfl

/-- The end of a named group is not the end of a default group. -/
theorem finish (h : Gathers name ms c) (hname : c.heading? ≠ some name) :
    Gathers name (ms ++ [.closed]) (if c.heading?.isSome then c.reopen none else c) := by
  have hcount : (ms ++ [Mark.closed]).countP Mark.isHeader = ms.countP Mark.isHeader := by
    rw [List.countP_append]
    rfl
  have houtside : Mark.outside (ms ++ [.closed]) = Mark.outside ms := by
    rw [Mark.outside_append_singleton]
    exact List.append_nil _
  have hgroup : Mark.group? (ms ++ [.closed]) = none := by
    rw [Mark.group?_append_singleton]
    rfl
  have hholds : (ms ++ [Mark.closed]).filterMap Mark.declaration? =
      ms.filterMap Mark.declaration? := by
    rw [Mark.filterMap_append_singleton]
    exact List.append_nil _
  -- a brace closes a named group only
  cases hheading : c.heading? with
  | none =>
    refine ⟨h.groupName, hheading.trans hgroup.symm, hholds ▸ h.holds, ?_⟩
    rw [hcount, houtside]
    exact h.batches
  | some x =>
    obtain ⟨bs, hgroups, hordered, hbefore, hall⟩ := h.closed hname
    refine ⟨h.groupName, hgroup.symm, hholds ▸ h.holds.reopen none, bs, hgroups, hordered, ?_, ?_⟩
    · rw [hheading, if_neg (Option.some_ne_none x)] at hbefore
      rwa [hcount]
    · rw [houtside, hall]
      exact (List.append_nil _).symm

theorem mark (h : Gathers name ms c) (hname : c.heading? ≠ some name) (hc : c.mark m = .ok c') :
    Gathers name (ms ++ [m]) c' := by
  cases m with
  | opened x =>
    cases hc
    exact h.reopen hname x
  | closed =>
    cases hc
    exact h.finish hname
  | declared d =>
    obtain ⟨i, hi, rfl⟩ := map_eq_ok hc
    obtain ⟨hid, hshown⟩ := Declaration.instrument_ok hi
    exact h.add hid hshown

end Gathers

/-- What is known of the default groups behind all marks. -/
theorem gathers_foldlM {defaults : Defaults}
    (hnames : ∀ x, .opened x ∈ ms → x ≠ defaults.groupName)
    (h : ms.foldlM Collecting.mark { ensemble := { defaults } } = .ok c) :
    Gathers defaults.groupName ms c := by
  refine foldlM_invariant (f := Collecting.mark) (P := fun past c ↦
    (∀ x, .opened x ∈ past → x ≠ defaults.groupName) → Gathers defaults.groupName past c)
    ?_ ?_ h hnames
  · intro past c m c' h hc hnames
    have h := h fun x hx ↦ hnames x (List.mem_append_left _ hx)
    refine h.mark (fun hheading ↦ ?_) hc
    have hopened := Mark.exists_opened_of_group? (h.heading.symm.trans hheading)
    exact hnames _ (List.mem_append_left _ hopened) rfl
  · intro _
    exact ⟨rfl, rfl, ⟨rfl, rfl, rfl, fun _ hg ↦ absurd hg List.not_mem_nil, fun _ ↦ rfl⟩,
      [], rfl, .nil, fun _ hb ↦ absurd hb List.not_mem_nil, rfl⟩

end Collecting

/-! ## The default groups of a text -/

/-- The default groups among the groups that some marks make. -/
structure DefaultGroups (name : String) (ms : List Mark) (gs : List Group) : Prop where
  /-- There is one for the ids that are declared outside without a header between them. -/
  batches : gs.filter (·.name = name) =
    ((Mark.outside ms).splitBy fun x y ↦ x.1 == y.1).map fun run ↦ ⟨name, run.map Prod.snd⟩
  /-- Together they have all ids that are declared outside, in order. -/
  members : (gs.filter (·.name = name)).flatMap Group.members = (Mark.outside ms).map Prod.snd
  /-- In front of the first one are the groups of the ids that are declared before it. -/
  place : (gs.takeWhile (·.name ≠ name)).flatMap Group.members =
    (Mark.ids ms).takeWhile (· ∉ (Mark.outside ms).map Prod.snd)
  /-- There is one at most if and only if no header stands between two of these ids. -/
  single : (gs.filter (·.name = name)).length ≤ 1 ↔
    ∀ x ∈ Mark.outside ms, ∀ y ∈ Mark.outside ms, x.1 = y.1

/-- What is told apart by items can be told apart by their parts. -/
theorem flatMap_takeWhile {α β : Type} {f : α → List β} {p : α → Bool} {q : β → Bool} {as : List α}
    (hpos : ∀ a ∈ as, p a = true → ∀ b ∈ f a, q b = true)
    (hneg : ∀ a ∈ as, p a = false → ∃ b bs, f a = b :: bs ∧ q b = false) :
    (as.takeWhile p).flatMap f = (as.flatMap f).takeWhile q := by
  induction as with
  | nil => rfl
  | cons a as ih =>
    rw [List.forall_mem_cons] at hpos hneg
    rw [List.flatMap_cons]
    cases hp : p a with
    | true =>
      rw [List.takeWhile_cons_of_pos hp, List.flatMap_cons, ih hpos.2 hneg.2,
        List.takeWhile_append_of_pos (hpos.1 hp)]
    | false =>
      obtain ⟨b, bs, hf, hq⟩ := hneg.1 hp
      rw [List.takeWhile_cons_of_neg (Bool.not_eq_true _ ▸ hp), hf, List.cons_append,
        List.takeWhile_cons_of_neg (Bool.not_eq_true _ ▸ hq), List.flatMap_nil]

/-- Groups that have some ids, and these ids alone, begin where the first of them is declared. -/
theorem Ensemble.Declares.place {ds : List Declaration} {e : Ensemble} (he : e.Declares ds)
    {name : String} {ids : List String}
    (hids : (e.groups.filter (·.name = name)).flatMap Group.members = ids) :
    (e.groups.takeWhile (·.name ≠ name)).flatMap Group.members =
      (Declaration.ids ds).takeWhile (· ∉ ids) := by
  rw [← he.members, ← hids]
  refine flatMap_takeWhile (fun g hg hp id hid ↦ ?_) fun g hg hp ↦ ?_
  · -- no id is in two groups
    have hnodup : (e.groups.flatMap Group.members).Nodup := he.members ▸ nodup_eraseDups _
    have : Std.Symm (Function.onFun List.Disjoint Group.members) := ⟨fun _ _ h _ hb ha ↦ h ha hb⟩
    rw [decide_eq_true_eq] at hp ⊢
    rw [List.mem_flatMap]
    rintro ⟨g', hg', hid'⟩
    obtain ⟨hg', hname⟩ := List.mem_filter.mp hg'
    have hne : g ≠ g' := fun hsame ↦ hp (hsame ▸ of_decide_eq_true hname)
    exact (List.nodup_flatMap.mp hnodup).2.forall hg hg' hne hid hid'
  · have hname : g.name = name := by simpa using hp
    obtain ⟨id, rest, hid⟩ := List.exists_cons_of_ne_nil (he.nonempty g hg)
    have hmem : g ∈ e.groups.filter (·.name = name) :=
      List.mem_filter.mpr ⟨hg, decide_eq_true hname⟩
    refine ⟨id, rest, hid, decide_eq_false (not_not_intro ?_)⟩
    exact List.mem_flatMap.mpr ⟨g, hmem, hid ▸ List.mem_cons_self⟩

theorem DefaultGroups.of_batches {name : String} {ms : List Mark} {e : Ensemble} {bs : List Batch}
    (he : e.Declares (ms.filterMap Mark.declaration?))
    (hgroups : e.groups.filter (·.name = name) = bs.map (Batch.group name))
    (hordered : bs.Pairwise fun a b ↦ a.headers < b.headers)
    (houtside : Mark.outside ms = bs.flatMap Batch.numbered) : DefaultGroups name ms e.groups := by
  -- no batch is empty, since no group is
  have hids : ∀ b ∈ bs, b.ids ≠ [] := by
    intro b hb
    have hmem : b.group name ∈ e.groups := by
      refine List.mem_of_mem_filter (p := (·.name = name)) ?_
      rw [hgroups]
      exact List.mem_map_of_mem hb
    exact he.nonempty _ hmem
  have hsnd (b : Batch) : b.numbered.map Prod.snd = b.ids := by
    rw [Batch.numbered, List.map_map]
    exact List.map_id _
  have hmembers : (e.groups.filter (·.name = name)).flatMap Group.members =
      (Mark.outside ms).map Prod.snd := by
    rw [hgroups, houtside, List.map_flatMap, List.flatMap_map]
    simp only [hsnd]
    rfl
  refine ⟨?_, hmembers, ?_, ?_⟩
  · rw [hgroups, houtside, Batch.splitBy_numbered hids hordered, List.map_map]
    refine List.map_congr_left fun b _ ↦ ?_
    rw [Function.comp_apply, hsnd]
    rfl
  · exact he.place hmembers
  · rw [hgroups, List.length_map, houtside]
    exact Batch.length_le_one_iff hids hordered

namespace Ensemble

variable {defaults : Defaults} {ls : List (Nat × List Char)} {e : Ensemble}

/-- **The default groups of a text.**  They have what is declared outside of every named group, in
order, and the first one stands where the first of these ids is declared.  There is no other one if
and only if no group header stands between two of them. -/
theorem defaultGroups_collect
    (hnames : ∀ x, .opened x ∈ Mark.ofLines ls → x ≠ defaults.groupName)
    (h : (collect defaults ls).value = .ok e) :
    DefaultGroups defaults.groupName (Mark.ofLines ls) e.groups := by
  have hdeclares := declares_collect h
  rw [← Mark.filterMap_ofLines] at hdeclares
  rw [collect, Noted.value_bind fun _ ↦ .pure _, Collecting.foldlM_readLine] at h
  obtain ⟨c₁, hc₁, h⟩ := bind_eq_ok h
  obtain ⟨c, hc, rfl⟩ := map_eq_ok hc₁
  cases h
  have hgathers := Collecting.gathers_foldlM hnames hc
  have hname : c.heading? ≠ some defaults.groupName := fun hheading ↦
    hnames _ (Mark.exists_opened_of_group? (hgathers.heading.symm.trans hheading)) rfl
  obtain ⟨bs, hgroups, hordered, -, houtside⟩ := hgathers.closed hname
  exact .of_batches hdeclares hgroups hordered houtside

/-- Instruments between two named groups; one of them is declared in the first group already. -/
def trio : List (Nat × List Char) :=
  numbered "group A \x7b def x \x7d\ndef p\ndef x\ndef q\ngroup B \x7b def y \x7d".toList

theorem defaultGroups_collect_trio :
    (∀ x, .opened x ∈ Mark.ofLines trio → x ≠ Defaults.groupName {}) ∧
      ∃ e, (collect {} trio).value = .ok e ∧
        DefaultGroups (Defaults.groupName {}) (Mark.ofLines trio) e.groups ∧
        e.groups = [⟨"A", ["x"]⟩, ⟨"Ungrouped", ["p", "q"]⟩, ⟨"B", ["y"]⟩] := by
  have hmarks : Mark.ofLines trio = [.opened "A", .declared { id := ['x'] }, .closed,
      .declared { id := ['p'] }, .declared { id := ['x'] }, .declared { id := ['q'] }, .opened "B",
      .declared { id := ['y'] }, .closed] := by
    decide +kernel
  have hnames : ∀ x, .opened x ∈ Mark.ofLines trio → x ≠ Defaults.groupName {} := by
    simp [hmarks]
  obtain ⟨e, he, hgroups⟩ := exists_ok_of_any (x := (collect {} trio).value)
    (f := fun e ↦ e.groups = [⟨"A", ["x"]⟩, ⟨"Ungrouped", ["p", "q"]⟩, ⟨"B", ["y"]⟩])
    (by decide +kernel)
  exact ⟨hnames, e, he, defaultGroups_collect hnames he, of_decide_eq_true hgroups⟩

/-- Instruments around a named group. -/
def parted : List (Nat × List Char) :=
  numbered "def a\ngroup \"G\" \x7b\ndef b\n\x7d\ndef c".toList

/-- They are in two default groups. -/
theorem parted_collect :
    Mark.ofLines parted = [.declared { id := ['a'] }, .opened "G", .declared { id := ['b'] },
        .closed, .declared { id := ['c'] }] ∧
      (∀ x, .opened x ∈ Mark.ofLines parted → x ≠ Defaults.groupName {}) ∧
      ∃ e, (collect {} parted).value = .ok e ∧
        e.groups = [⟨"Ungrouped", ["a"]⟩, ⟨"G", ["b"]⟩, ⟨"Ungrouped", ["c"]⟩] := by
  have hmarks : Mark.ofLines parted = [.declared { id := ['a'] }, .opened "G",
      .declared { id := ['b'] }, .closed, .declared { id := ['c'] }] := by
    decide +kernel
  obtain ⟨e, he, hgroups⟩ := exists_ok_of_any (x := (collect {} parted).value)
    (f := fun e ↦ e.groups = [⟨"Ungrouped", ["a"]⟩, ⟨"G", ["b"]⟩, ⟨"Ungrouped", ["c"]⟩])
    (by decide +kernel)
  exact ⟨hmarks, by simp [hmarks], e, he, of_decide_eq_true hgroups⟩

end Ensemble

end TextScore
