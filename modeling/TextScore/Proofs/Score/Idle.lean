import Mathlib.Data.List.Induction
import TextScore.Proofs.Ensemble.Declared
import TextScore.Proofs.Measure.LastActive

/-!
# Idle lines

The lines of a score are read twice, for the ensemble and for the body.  Each reading leaves some
lines to the other one; a line that both of them pass over is idle.  Such a line is a directive that
sets nothing, or one that looks like a declaration and declares nothing.  It is not reported, and
nothing changes if it is left out.

That nothing changes is shown by what a line does to the state of a reading: nothing at all.  Then
the lines around it are read as if they stood next to each other.  For the body this needs that the
current block has the tempo and the time signature that hold at the line, as a directive hands both
on to the block even if it sets neither; that is an invariant of reading.  For the ensemble it needs
that no closing brace stands at the end of the line, because one that does closes a group even if
nothing is declared.

## What is here

* `isIdle` — both readings pass over a line.
* `Clause.isOutside` — a line stands outside of meta blocks.
* `Segmenting.readLine_idle`, `Collecting.readLine_idle` — an idle line does nothing.
* `Body.outcome_segment_idle`, `Ensemble.outcome_collect_idle` — it can be left out.
-/

set_option autoImplicit false

namespace TextScore

open Text

/-! ## Idle lines

Whether a line is idle is a question about its text alone. -/

/-- The body gets nothing from the line: it is a directive that sets nothing, or is left to the
declarations. -/
def isIdleInBody (text : List Char) : Bool :=
  if isDirective text then
    (findTempo? text).isNone && (findTimeSignature? text).isNone && (findTitle? text).isNone &&
      (findComposer? text).isNone
  else (MeasureHeader.read? text).isNone && isDeclarationLine text

/-- The ensemble gets nothing from the line: it is no group header and no closing brace, declares
nothing, and is no instruction either. -/
def isIdleInEnsemble (text : List Char) : Bool :=
  (Heading.read? text).isNone && (Declaration.onLine text).isEmpty && text != ['}'] &&
    !startsWithKeyword text "instruction".toList

/-- Nobody gets anything from the line. -/
def isIdle (text : List Char) : Bool := isIdleInBody text && isIdleInEnsemble text

/-! ## Meta blocks

Where no meta block is open for the body none is open for the ensemble, so that one condition on the
lines in front is enough for both. -/

theorem mem_of_dropKeyword? {k s r : List Char} (h : dropKeyword? k s = some r) {c : Char}
    (hc : c ∈ s) : c ∈ r ∨ ∃ a ∈ k, isSpelling a c = true := by
  induction k generalizing s with
  | nil =>
    cases h
    exact .inl hc
  | cons a k ih =>
    cases s with
    | nil => cases hc
    | cons b s =>
      rw [dropKeyword?] at h
      split at h
      case isTrue hspell =>
        rcases List.mem_cons.mp hc with rfl | hc
        · exact .inr ⟨a, List.mem_cons_self, hspell⟩
        · rcases ih h hc with hr | ⟨a', ha', hspell'⟩
          · exact .inl hr
          · exact .inr ⟨a', List.mem_cons_of_mem a ha', hspell'⟩
      case isFalse => cases h

namespace MetaBlock

variable {text : List Char}

/-- A line that opens a meta block does not close it. -/
theorem closes_of_opens (h : opens text = true) : closes text = false := by
  rw [opens] at h
  cases hr : dropKeyword? "meta".toList text with
  | none =>
    rw [hr] at h
    cases h
  | some r =>
    rw [hr] at h
    simp only [Bool.and_eq_true, Bool.not_eq_true'] at h
    by_contra hcloses
    rw [Bool.not_eq_false, closes, List.contains_iff_mem] at hcloses
    rcases mem_of_dropKeyword? hr hcloses with hmem | ⟨a, ha, hspell⟩
    · rw [← List.contains_iff_mem, h.2] at hmem
      exact Bool.false_ne_true hmem
    · have hnone : ("meta".toList.any fun a ↦ isSpelling a '}') = false := by decide
      exact List.any_eq_false.mp hnone a ha hspell

/-- A line that opens a meta block is a directive. -/
theorem isDirective_of_opens (h : opens text = true) : isDirective text = true := by
  have hmeta : startsWithKeyword text "meta".toList = true := by
    rw [opens] at h
    rw [startsWithKeyword]
    cases hr : dropKeyword? "meta".toList text with
    | none =>
      rw [hr] at h
      cases h
    | some r =>
      rw [hr] at h
      simp only [Bool.and_eq_true] at h
      exact h.1.1
  rw [isDirective, directiveKeywords, List.any_cons, hmeta]
  rfl

end MetaBlock

namespace Clause

/-- Whether a meta block is open behind some lines, also one that is opened behind a measure
header. -/
def metaBehind (ls : List (Nat × List Char)) : Bool := (ofLines false ls).foldl metaAfter false

theorem ofLines_concat (ls : List (Nat × List Char)) (l : Nat × List Char) :
    ofLines false (ls ++ [l]) = ofLines false ls ++ ofLine (metaBehind ls) l := by
  rw [ofLines_append, ofLines, ofLines, List.append_nil, metaBehind]

theorem metaBehind_concat (ls : List (Nat × List Char)) (l : Nat × List Char) :
    metaBehind (ls ++ [l]) = (ofLine (metaBehind ls) l).foldl metaAfter (metaBehind ls) := by
  rw [metaBehind, ofLines_concat, List.foldl_append]
  rfl

/-- Where no meta block is open for the body none is open for the ensemble. -/
theorem metaBehind_of_behind {ls : List (Nat × List Char)} (h : MetaBlock.behind ls = true) :
    metaBehind ls = true := by
  induction ls using List.reverseRecOn with
  | nil => cases h
  | append_singleton ls l ih =>
    rw [MetaBlock.behind_concat, MetaBlock.after] at h
    rw [metaBehind_concat, ofLine]
    by_cases hempty : (trim l.2).isEmpty = true
    · rw [if_pos hempty]
      rw [List.isEmpty_iff.mp hempty] at h
      refine ih ?_
      by_contra hbehind
      rw [if_neg hbehind] at h
      cases h
    rw [if_neg hempty]
    cases hinMeta : metaBehind ls with
    | true =>
      -- A block that is open for the body only is not closed by what opens one for the ensemble.
      have hcloses : MetaBlock.closes (trim l.2) = false := by
        split at h
        case isTrue => exact (Bool.not_eq_true' _).mp h
        case isFalse => exact MetaBlock.closes_of_opens h
      rw [ofText, Bool.true_or, if_pos rfl, List.foldl_cons, List.foldl_nil, metaAfter, if_pos rfl,
        hcloses]
      rfl
    | false =>
      rw [if_neg fun hbehind ↦ Bool.false_ne_true (hinMeta ▸ ih hbehind)] at h
      rw [ofText, if_pos (by rw [MetaBlock.isDirective_of_opens h]; rfl), List.foldl_cons,
        List.foldl_nil, metaAfter, if_neg Bool.false_ne_true]
      exact h

theorem behind_of_metaBehind {ls : List (Nat × List Char)} (h : metaBehind ls = false) :
    MetaBlock.behind ls = false := by
  by_contra hbehind
  rw [metaBehind_of_behind (Bool.not_eq_false _ ▸ hbehind)] at h
  cases h

/-- The line stands outside of meta blocks. -/
def isOutside (before : List (Nat × List Char)) (l : Nat × List Char) : Bool :=
  !metaBehind before && !MetaBlock.opens (trim l.2)

theorem isOutside_iff {before : List (Nat × List Char)} {l : Nat × List Char} :
    isOutside before l = true ↔ metaBehind before = false ∧ MetaBlock.opens (trim l.2) = false := by
  rw [isOutside, Bool.and_eq_true, Bool.not_eq_true', Bool.not_eq_true']

end Clause

/-! ## Reading idle lines -/

namespace Collecting

variable {c : Collecting} {l : Nat × List Char}

theorem declareAll_idle {line : Nat} {text : List Char} (hend : text.getLast? ≠ some '}')
    (hnone : Declaration.inText text = []) : declareAll line c text = pure c := by
  have hcloses : (text.getLast? == some '}') = false := by simpa using hend
  have hskip (ts : List (List Char)) (hts : ts.filterMap Declaration.read? = []) :
      ts.foldlM (declare line) c = pure c := by
    induction ts with
    | nil => rfl
    | cons t ts ih =>
      rw [List.filterMap_eq_nil_iff] at hts
      rw [List.foldlM_cons, declare, hts t List.mem_cons_self, pure_bind]
      exact ih (List.filterMap_eq_nil_iff.mpr fun t' ht' ↦ hts t' (List.mem_cons_of_mem t ht'))
  rw [Declaration.inText, Declaration.withoutBrace, hcloses, if_neg Bool.false_ne_true] at hnone
  rw [declareAll]
  rw [hcloses, if_neg Bool.false_ne_true, hskip _ hnone, pure_bind, Bool.false_and,
    if_neg Bool.false_ne_true]

/-- An idle line does nothing to the ensemble, if no closing brace stands at its end. -/
theorem readLine_idle (hmeta : c.inMeta = false) (hopens : MetaBlock.opens (trim l.2) = false)
    (hend : (trim l.2).getLast? ≠ some '}') (hidle : isIdleInEnsemble (trim l.2) = true) :
    readLine c l = pure c := by
  simp only [isIdleInEnsemble, Bool.and_eq_true, Option.isNone_iff_eq_none, List.isEmpty_iff,
    bne_iff_ne] at hidle
  obtain ⟨⟨⟨hhead, hnone⟩, hbrace⟩, -⟩ := hidle
  rw [readLine]
  split
  · rfl
  rw [step, hmeta, if_neg Bool.false_ne_true, hopens, if_neg Bool.false_ne_true, hhead]
  dsimp only
  rw [Declaration.onLine, hhead] at hnone
  dsimp only at hnone
  by_cases hstarts : startsDeclaration (trim l.2) = true
  · rw [if_pos hstarts] at hnone
    rw [if_pos (.inr hstarts), declareAll_idle hend hnone]
  · rw [if_neg (by simp [hbrace, hstarts])]

end Collecting

/-- An idle line does nothing to the body. -/
theorem Segmenting.readLine_idle {g : Segmenting} {l : Nat × List Char} (hmeta : g.inMeta = false)
    (hblock : ∀ b ∈ g.current?, b.tempo = g.tempo ∧ b.timeSignature = g.timeSignature)
    (hopens : MetaBlock.opens (trim l.2) = false) (hidle : isIdleInBody (trim l.2) = true) :
    readLine g l = pure g := by
  rw [readLine]
  split
  · rfl
  rw [isIdleInBody] at hidle
  cases hdir : isDirective (trim l.2) with
  | true =>
    rw [hdir, if_pos rfl] at hidle
    simp only [Bool.and_eq_true, Option.isNone_iff_eq_none] at hidle
    obtain ⟨⟨⟨htempo, htime⟩, htitle⟩, hcomposer⟩ := hidle
    have hinMeta : g.inMetaAfter (trim l.2) = g.inMeta := by
      rw [inMetaAfter, hmeta, if_neg Bool.false_ne_true, hopens]
    -- the current block has these values already
    have hupdate : (g.setNames (trim l.2)).updateBlock = g := by
      rw [setNames, htitle, hcomposer, updateBlock]
      have hcurrent : g.current?.map (fun b ↦
          { b with tempo := g.tempo, timeSignature := g.timeSignature }) = g.current? := by
        cases hg : g.current? with
        | none => rfl
        | some b =>
          obtain ⟨ht, hs⟩ := hblock b hg
          rw [Option.map_some, ← ht, ← hs]
      show { g with current? := g.current?.map _ } = g
      rw [hcurrent]
    rw [step, readsDirective, hdir, Bool.or_true, if_pos rfl, hinMeta, applyDirective, setTempo,
      htempo]
    dsimp only
    rw [pure_bind, setTimeSignature, htime]
    dsimp only
    rw [pure_bind, hupdate]
  | false =>
    rw [hdir, if_neg Bool.false_ne_true, Bool.and_eq_true, Option.isNone_iff_eq_none] at hidle
    rw [step_plain l.1 g _ (by rw [readsDirective, hmeta, hdir]; rfl) hidle.1, addLine,
      if_pos hidle.2]

section

variable {defaults : Defaults} {before after : List (Nat × List Char)} {l : Nat × List Char}

/-- Without an idle line the body is the same, and so is what is noted of it. -/
theorem Body.outcome_segment_idle (hout : Clause.isOutside before l = true)
    (hidle : isIdleInBody (trim l.2) = true) :
    (Body.segment defaults (before ++ l :: after)).outcome =
      (Body.segment defaults (before ++ after)).outcome := by
  obtain ⟨hmeta, hopens⟩ := Clause.isOutside_iff.mp hout
  refine Noted.outcome_bind_congr (fun _ ↦ .pure _) ?_
  refine Noted.outcome_foldlM_skip Segmenting.appends_readLine before after ?_
  intro g hg
  rw [Segmenting.foldlM_readLine_value] at hg
  obtain ⟨-, rfl⟩ := Segmenting.run_ok hg
  refine Segmenting.readLine_idle ?_ ?_ hopens hidle
  · rw [Segmenting.inMeta_foldl_after]
    exact hmeta
  · exact ((Segmenting.mirrors_start defaults).foldl_after _).block

/-- Without an idle line the ensemble is the same, and so is what is noted of it. -/
theorem Ensemble.outcome_collect_idle (hout : Clause.isOutside before l = true)
    (hidle : isIdleInEnsemble (trim l.2) = true) (hend : (trim l.2).getLast? ≠ some '}') :
    (Ensemble.collect defaults (before ++ l :: after)).outcome =
      (Ensemble.collect defaults (before ++ after)).outcome := by
  obtain ⟨hmeta, hopens⟩ := Clause.isOutside_iff.mp hout
  have hbehind := Clause.behind_of_metaBehind hmeta
  refine Noted.outcome_bind_congr (fun _ ↦ .pure _) ?_
  refine Noted.outcome_foldlM_skip Collecting.appends_readLine before after ?_
  intro c hc
  exact Collecting.readLine_idle ((Collecting.holds_foldlM hc).inMeta.trans hbehind) hopens hend
    hidle

end

end TextScore
