import TextScore.Proofs.Score.Idle

/-!
# Where the two readings see meta blocks

The ensemble and the body are read from the same lines, and each reading keeps its own account of
whether a meta block is open.  The two should agree at every line, for otherwise one of them takes
for text what the other takes for a declaration.

The one for the ensemble looks at whole lines only; the one for the body reads what stands behind a
measure header as a line of its own, and a meta block may open there.  Until that block is closed,
or another one opens on a line of its own, the two accounts differ; at all other places they are the
same.  So the condition for agreement is exact, and it is one on the lines.

That one account implies the other is easy in one direction: a meta block that opens on a line of
its own opens for both.  In the other direction, a block that is open for the body alone must have
been opened behind a measure header, and since then no line can have closed it and none have opened
one for the ensemble.  This is shown by induction on the lines from their end.

## What is here

* `MetaBlock.opensBehindHeader` — a meta block opens behind the measure headers of a line.
* `Clause.OpensForBodyOnly` — the block that is open behind some lines was opened in that way.
* `inMeta_eq_iff` — the readings agree exactly where no such block is open.
* `inMeta_ne_choir` — a closing brace that ends a meta block for the body and a group for the
  ensemble.

The two functions that read a line are `Collecting.readLine` and `Segmenting.readLine`, and the
flags that are compared are those that they keep.
-/

set_option autoImplicit false

namespace TextScore

open Text

/-! ## Blocks behind measure headers

There may be any number of measure headers on a line, one behind the other. -/

/-- A meta block opens behind the measure headers that the line starts with. -/
def MetaBlock.opensBehindHeader (text : List Char) : Bool :=
  if isDirective text then false
  else
    match _h : MeasureHeader.read? text with
    | some h => opens (trim h.rest) || opensBehindHeader (trim h.rest)
    | none => false
termination_by text.length
decreasing_by
  have := MeasureHeader.read?_length _h
  have := trim_length_le h.rest
  omega

namespace MetaBlock

variable {text : List Char}

theorem opensBehindHeader_header {h : MeasureHeader} (hdir : isDirective text = false)
    (hread : MeasureHeader.read? text = some h) :
    opensBehindHeader text = (opens (trim h.rest) || opensBehindHeader (trim h.rest)) := by
  rw [opensBehindHeader, if_neg (by rw [hdir]; exact Bool.false_ne_true)]
  split
  case h_1 h' hread' =>
    obtain rfl := Option.some.inj (hread.symm.trans hread')
    rfl
  case h_2 hread' => cases hread.symm.trans hread'

theorem opensBehindHeader_of_none (hread : MeasureHeader.read? text = none) :
    opensBehindHeader text = false := by
  rw [opensBehindHeader]
  split
  case isTrue => rfl
  case isFalse =>
    split
    case h_1 h' hread' => cases hread.symm.trans hread'
    case h_2 => rfl

theorem opens_of_not_isDirective (hdir : isDirective text = false) : opens text = false := by
  by_contra hopens
  rw [isDirective_of_opens (Bool.not_eq_false _ ▸ hopens)] at hdir
  cases hdir

/-- A block opens on the line itself or behind its headers, not both. -/
theorem opens_of_opensBehindHeader (h : opensBehindHeader text = true) : opens text = false := by
  refine opens_of_not_isDirective ?_
  by_contra hdir
  rw [opensBehindHeader, if_pos (Bool.not_eq_false _ ▸ hdir)] at h
  cases h

@[simp] theorem closes_nil : closes [] = false := rfl

@[simp] theorem opens_nil : opens [] = false := rfl

@[simp] theorem opensBehindHeader_nil : opensBehindHeader [] = false :=
  opensBehindHeader_of_none rfl

end MetaBlock

namespace Clause

/-- Whether a line that is read outside of meta blocks leaves one open, for the body. -/
theorem foldl_metaAfter_ofText (line : Nat) (text : List Char) :
    (ofText line false text).foldl metaAfter false =
      (MetaBlock.opens text || MetaBlock.opensBehindHeader text) := by
  induction text using MetaBlock.opensBehindHeader.induct with
  | case1 text hdir =>
    rw [ofText, hdir, Bool.or_true, if_pos rfl, MetaBlock.opensBehindHeader, if_pos hdir,
      Bool.or_false]
    rfl
  | case2 text hdir h hread ih =>
    rw [Bool.not_eq_true] at hdir
    rw [MetaBlock.opens_of_not_isDirective hdir, Bool.false_or,
      MetaBlock.opensBehindHeader_header hdir hread, ofText, hdir, Bool.or_false,
      if_neg Bool.false_ne_true]
    split
    case h_1 h' hread' =>
      obtain rfl := Option.some.inj (hread.symm.trans hread')
      rw [List.foldl_cons]
      split
      case isTrue hempty =>
        rw [List.isEmpty_iff.mp hempty, MetaBlock.opens_nil, MetaBlock.opensBehindHeader_nil]
        rfl
      case isFalse => exact ih
    case h_2 hread' => cases hread.symm.trans hread'
  | case3 text hdir hread =>
    rw [Bool.not_eq_true] at hdir
    rw [MetaBlock.opens_of_not_isDirective hdir, MetaBlock.opensBehindHeader_of_none hread, ofText,
      hdir, Bool.or_false, if_neg Bool.false_ne_true]
    split
    case h_1 h' hread' => cases hread.symm.trans hread'
    case h_2 => rfl

/-- Whether a meta block is open for the body behind one line more. -/
theorem metaBehind_concat_eq (ls : List (Nat × List Char)) (l : Nat × List Char) :
    metaBehind (ls ++ [l]) =
      if metaBehind ls then !MetaBlock.closes (trim l.2)
      else MetaBlock.opens (trim l.2) || MetaBlock.opensBehindHeader (trim l.2) := by
  rw [metaBehind_concat, ofLine]
  by_cases hempty : (trim l.2).isEmpty = true
  · rw [if_pos hempty, List.isEmpty_iff.mp hempty]
    cases metaBehind ls <;> simp
  rw [if_neg hempty]
  cases metaBehind ls with
  | true => rw [ofText, Bool.true_or, if_pos rfl, if_pos rfl]; rfl
  | false => rw [foldl_metaAfter_ofText, if_neg Bool.false_ne_true]

/-- The meta block that is open behind some lines is known to the body only: a line outside of meta
blocks opened it behind a measure header, and since then no line has closed it and none has opened
one for the ensemble. -/
def OpensForBodyOnly (ls : List (Nat × List Char)) : Prop :=
  ∃ past l rest, ls = past ++ l :: rest ∧ metaBehind past = false ∧
    MetaBlock.opensBehindHeader (trim l.2) = true ∧
    ∀ r ∈ rest, MetaBlock.closes (trim r.2) = false ∧ MetaBlock.opens (trim r.2) = false

theorem opensForBodyOnly_of_metaBehind {ls : List (Nat × List Char)}
    (hbody : metaBehind ls = true) (hensemble : MetaBlock.behind ls = false) :
    OpensForBodyOnly ls := by
  induction ls using List.reverseRecOn with
  | nil => cases hbody
  | append_singleton ls l ih =>
    rw [metaBehind_concat_eq] at hbody
    rw [MetaBlock.behind_concat, MetaBlock.after] at hensemble
    -- either the last line has opened the block, or it was open and that line has not closed it
    cases hopen : metaBehind ls with
    | false =>
      rw [behind_of_metaBehind hopen, if_neg Bool.false_ne_true] at hensemble
      rw [hopen, if_neg Bool.false_ne_true, hensemble, Bool.false_or] at hbody
      exact ⟨ls, l, [], rfl, hopen, hbody, fun _ hr ↦ absurd hr List.not_mem_nil⟩
    | true =>
      rw [hopen, if_pos rfl, Bool.not_eq_true'] at hbody
      have hbehind : MetaBlock.behind ls = false := by
        by_contra hbehind
        rw [if_pos (Bool.not_eq_false _ ▸ hbehind), hbody] at hensemble
        cases hensemble
      rw [hbehind, if_neg Bool.false_ne_true] at hensemble
      obtain ⟨past, l₀, rest, rfl, hpast, hl₀, hrest⟩ := ih hopen hbehind
      refine ⟨past, l₀, rest ++ [l], by rw [List.append_assoc, List.cons_append], hpast, hl₀, ?_⟩
      intro r hr
      rcases List.mem_append.mp hr with hr | hr
      · exact hrest r hr
      · rw [List.mem_singleton.mp hr]
        exact ⟨hbody, hensemble⟩

theorem OpensForBodyOnly.metaBehind {ls : List (Nat × List Char)} (h : OpensForBodyOnly ls) :
    metaBehind ls = true ∧ MetaBlock.behind ls = false := by
  obtain ⟨past, l, rest, rfl, hpast, hl, hrest⟩ := h
  induction rest using List.reverseRecOn with
  | nil =>
    rw [metaBehind_concat_eq, MetaBlock.behind_concat, MetaBlock.after, hpast,
      behind_of_metaBehind hpast, hl, MetaBlock.opens_of_opensBehindHeader hl]
    exact ⟨rfl, rfl⟩
  | append_singleton rest r ih =>
    obtain ⟨hcloses, hopens⟩ := hrest r (List.mem_append_right _ (List.mem_singleton_self r))
    obtain ⟨hbody, hensemble⟩ := ih fun r hr ↦ hrest r (List.mem_append_left _ hr)
    rw [← List.cons_append, ← List.append_assoc, metaBehind_concat_eq, MetaBlock.behind_concat,
      MetaBlock.after, hbody, hensemble, hcloses, hopens]
    exact ⟨rfl, rfl⟩

end Clause

/-! ## The two readings

Each of the flags is a function of the lines alone. -/

section

variable {defaults : Defaults} {ls : List (Nat × List Char)} {c : Collecting} {g : Segmenting}

theorem Segmenting.inMeta_foldlM {tempo : Float} {timeSignature : TimeSignature}
    (hg : (ls.foldlM readLine { tempo, timeSignature }).value = .ok g) :
    g.inMeta = Clause.metaBehind ls := by
  rw [foldlM_readLine_value] at hg
  obtain ⟨-, rfl⟩ := run_ok hg
  rw [inMeta_foldl_after]
  rfl

/-- **Agreement on meta blocks.**  Behind lines that both readings have come through they agree on
whether a meta block is open, unless one is open that started behind a measure header; and a block
that is open for the ensemble is always open for the body.  The documentation has such blocks among
what may stand behind a measure header, so agreement is not given up on purpose; what comes of it is
shown in `inMeta_ne_choir`. -/
theorem inMeta_eq_iff
    (hc : (ls.foldlM Collecting.readLine { ensemble := { defaults } }).value = .ok c)
    (hg : (ls.foldlM Segmenting.readLine
      { tempo := defaults.tempo, timeSignature := defaults.timeSignature }).value = .ok g) :
    (c.inMeta = g.inMeta ↔ ¬Clause.OpensForBodyOnly ls) ∧
      (c.inMeta = true → g.inMeta = true) := by
  rw [(Collecting.holds_foldlM hc).inMeta, Segmenting.inMeta_foldlM hg]
  refine ⟨⟨?_, ?_⟩, Clause.metaBehind_of_behind⟩
  · intro hsame honly
    obtain ⟨hbody, hensemble⟩ := honly.metaBehind
    exact Bool.false_ne_true ((hensemble.symm.trans hsame).trans hbody)
  · intro honly
    cases hbody : Clause.metaBehind ls with
    | false => exact Clause.behind_of_metaBehind hbody
    | true =>
      by_contra hensemble
      exact honly (Clause.opensForBodyOnly_of_metaBehind hbody (Bool.not_eq_true _ ▸ hensemble))

end

/-! ## A block behind a measure header

A group with two members, and between them a measure header with a meta block behind it. -/

/-- A meta block in a group, behind a measure header; its closing brace is the fifth line. -/
def choir : List (Nat × List Char) :=
  numbered
    "group \"G\" \x7b\ndef v\nm 1 meta \x7b\nthe title: \"T\"\n\x7d\ndef w\n\x7d\nv: c4".toList

/-- The brace closes the meta block for the body; for the ensemble none is open, so that it closes
the group, and the second instrument is left out of it. -/
theorem inMeta_ne_choir :
    ∃ before l after c g, choir = before ++ l :: after ∧ trim l.2 = ['}'] ∧
      (before.foldlM Collecting.readLine { ensemble := { defaults := {} } }).value = .ok c ∧
      (before.foldlM Segmenting.readLine { tempo := 120, timeSignature := ⟨4, 4⟩ }).value = .ok g ∧
      c.inMeta = false ∧ g.inMeta = true ∧
      ∃ e, (Ensemble.collect {} choir).value = .ok e ∧
        e.groups = [⟨"G", ["v"]⟩, ⟨"Ungrouped", ["w"]⟩] := by
  obtain ⟨c, hc, hcmeta⟩ := exists_ok_of_any (f := fun c ↦ !c.inMeta)
    (x := ((choir.take 4).foldlM Collecting.readLine { ensemble := { defaults := {} } }).value)
    (by decide +kernel)
  obtain ⟨g, hg, hgmeta⟩ := exists_ok_of_any (f := fun g ↦ g.inMeta)
    (x := ((choir.take 4).foldlM Segmenting.readLine
      { tempo := 120, timeSignature := ⟨4, 4⟩ }).value)
    (by decide +kernel)
  obtain ⟨e, he, hgroups⟩ := exists_ok_of_any
    (x := (Ensemble.collect {} choir).value)
    (f := fun e ↦ e.groups = [⟨"G", ["v"]⟩, ⟨"Ungrouped", ["w"]⟩]) (by decide +kernel)
  exact ⟨choir.take 4, (5, ['}']), choir.drop 5, c, g, by decide +kernel, by decide +kernel, hc, hg,
    (Bool.not_eq_true' _).mp hcmeta, hgmeta, e, he, of_decide_eq_true hgroups⟩

/-- Behind the brace they agree again. -/
theorem inMeta_eq_iff_choir :
    ∃ c g, (choir.foldlM Collecting.readLine { ensemble := { defaults := {} } }).value = .ok c ∧
      (choir.foldlM Segmenting.readLine { tempo := 120, timeSignature := ⟨4, 4⟩ }).value = .ok g ∧
      (c.inMeta = g.inMeta ↔ ¬Clause.OpensForBodyOnly choir) ∧ ¬Clause.OpensForBodyOnly choir := by
  obtain ⟨c, hc, hcmeta⟩ := exists_ok_of_any (f := fun c ↦ !c.inMeta)
    (x := (choir.foldlM Collecting.readLine { ensemble := { defaults := {} } }).value)
    (by decide +kernel)
  obtain ⟨g, hg, hgmeta⟩ := exists_ok_of_any (f := fun g ↦ !g.inMeta)
    (x := (choir.foldlM Segmenting.readLine { tempo := 120, timeSignature := ⟨4, 4⟩ }).value)
    (by decide +kernel)
  have hagree : c.inMeta = g.inMeta ↔ ¬Clause.OpensForBodyOnly choir := (inMeta_eq_iff hc hg).1
  refine ⟨c, g, hc, hg, hagree, hagree.mp ?_⟩
  rw [(Bool.not_eq_true' _).mp hcmeta, (Bool.not_eq_true' _).mp hgmeta]

end TextScore
