import Mathlib.Data.List.Nodup
import TextScore.Proofs.Score.Roster
import TextScore.Proofs.Source.Kept

/-!
# Where diagnostics point

Every problem is met on a line of the text and reported with the number of that line.  Only that a
score has no notes is said of the score as a whole, at line 0, when all else has been said.

There are two parts to this.  The first is about numbers: whatever a stage reports, it reports at
the number of one of the lines that it was given, and these are numbered from one up to their count.
Each stage is a chain of steps, and the condition on reports goes through a chain, so there is a
short lemma for each step.  The second is about the text.  The lines that the stages are given are
not those of the text itself: comments and definitions have been taken out, and a definition may
extend over several lines.  So it is shown that every character that is left has as many line breaks
in front of it as it had in the text (`Keeps`), and that the number of lines is the same.

Diagnostics are made of reports, and a report that was made before at the same line, in the same
words, is left out.

## What is here

* `Pass.Within` — all problems of a pass are reported at the first `n` lines.
* `Journal.nodup_diagnostics` — no message is given twice for a line.
* `Draft.Stages.exists_reports` — all reports of a compilation.
* `Score.Located` — where the diagnostics of a score point.
* `located_ofText` — the lines of a text keep their numbers, and diagnostics point at them.
-/

set_option autoImplicit false

namespace TextScore

open Text

variable {α : Type} {n : Nat}

/-- A problem is reported at one of the first `n` lines. -/
def Entry.Within (n : Nat) : Entry → Prop
  | problem line _ => 1 ≤ line ∧ line ≤ n
  | _ => True

/-- All problems of a pass are reported at the first `n` lines. -/
def Pass.Within (n : Nat) (x : Pass α) : Prop := Noted.Emits (Entry.Within n) x

/-- All lines are among the first `n` ones. -/
def LinesWithin (n : Nat) (ls : List (Nat × List Char)) : Prop := ∀ l ∈ ls, 1 ≤ l.1 ∧ l.1 ≤ n

theorem Pass.Within.reports {x : Pass α} (h : x.Within n) : ∀ r ∈ x.reports, 1 ≤ r.1 ∧ r.1 ≤ n :=
  fun _ hr ↦ h.notes _ (Journal.mem_reports.mp hr)

/-- Whatever is met on a line is reported at that line. -/
theorem Pass.within_atLine {line : Nat} (h : 1 ≤ line ∧ line ≤ n) (x : Noted Problem α) :
    (atLine line x).Within n := by
  refine ⟨.mapNotes _ x, fun e he ↦ ?_⟩
  rw [atLine, Noted.notes_mapNotes] at he
  obtain ⟨p, -, rfl⟩ := Array.mem_map.mp he
  exact h

theorem linesWithin_numbered (s : List Char) : LinesWithin (s.count '\n' + 1) (numbered s) := by
  intro l hl
  obtain ⟨p, hp, rfl⟩ := List.mem_map.mp hl
  obtain ⟨hfirst, hlast, -⟩ := List.mem_zipIdx hp
  have hlength : (lines s).length = s.count '\n' + 1 := length_splitOnChar '\n' s
  rw [hlength] at hlast
  exact ⟨hfirst, by omega⟩

/-! ## The declarations

All problems of a line are reported at its number. -/

namespace Collecting

theorem within_declare {line : Nat} (h : 1 ≤ line ∧ line ≤ n) (c : Collecting) (text : List Char) :
    (declare line c text).Within n := by
  rw [declare]
  cases Declaration.read? text with
  | none => exact .pure _
  | some d =>
    refine .bind (Pass.within_atLine h _) fun i ↦ ?_
    dsimp only
    split
    · exact .bind (.note h) fun _ ↦ .bind (.note trivial) fun _ ↦ .pure _
    · exact .bind (.note trivial) fun _ ↦ .pure _

theorem within_readLine {l : Nat × List Char} (h : 1 ≤ l.1 ∧ l.1 ≤ n) (c : Collecting) :
    (readLine c l).Within n := by
  have hall (c : Collecting) (text : List Char) : (declareAll l.1 c text).Within n :=
    .bind (.foldlM (within_declare h) _ _) fun _ ↦ .pure _
  rw [readLine, step]
  dsimp only
  split
  · exact .pure _
  split
  · exact .pure _
  split
  · exact .pure _
  split
  · exact .bind (.note trivial) fun _ ↦ hall _ _
  split
  · exact hall _ _
  · exact .pure _

end Collecting

theorem Ensemble.within_collect (defaults : Defaults) {ls : List (Nat × List Char)}
    (h : LinesWithin n ls) : (collect defaults ls).Within n :=
  .bind (.foldlM_mem (fun l hl ↦ Collecting.within_readLine (h l hl)) _) fun _ ↦ .pure _

/-! ## The body

What the body reports is known clause by clause, and a clause has the number of its line. -/

namespace Clause

/-- The number of the line. -/
def line : Clause → Nat
  | directive line _ => line
  | header line _ => line
  | plain line _ => line

theorem line_of_mem_ofText {line : Nat} {inMeta : Bool} {text : List Char} {c : Clause}
    (h : c ∈ ofText line inMeta text) : c.line = line := by
  induction inMeta, text using ofText.induct with
  | case1 inMeta text hdir =>
    rw [ofText, if_pos hdir] at h
    obtain rfl := List.mem_singleton.mp h
    rfl
  | case2 inMeta text hdir header hread ih =>
    rw [ofText, if_neg hdir] at h
    split at h
    case h_1 header' hread' =>
      obtain rfl := Option.some.inj (hread.symm.trans hread')
      rcases List.mem_cons.mp h with rfl | h
      · rfl
      split at h
      · cases h
      · exact ih h
    case h_2 hread' => cases hread.symm.trans hread'
  | case3 inMeta text hdir hread =>
    rw [ofText, if_neg hdir] at h
    split at h
    case h_1 header' hread' => cases hread.symm.trans hread'
    case h_2 =>
      obtain rfl := List.mem_singleton.mp h
      rfl

theorem line_of_mem_ofLines {inMeta : Bool} {ls : List (Nat × List Char)} {c : Clause}
    (h : c ∈ ofLines inMeta ls) : ∃ l ∈ ls, c.line = l.1 := by
  induction ls generalizing inMeta with
  | nil => cases h
  | cons l ls ih =>
    rw [ofLines] at h
    rcases List.mem_append.mp h with h | h
    · refine ⟨l, List.mem_cons_self, ?_⟩
      rw [ofLine] at h
      split at h
      · cases h
      · exact line_of_mem_ofText h
    · obtain ⟨m, hm, hline⟩ := ih h
      exact ⟨m, List.mem_cons_of_mem l hm, hline⟩

/-- What is reported of a clause is reported at its line. -/
theorem line_of_mem_problems {opened : Bool} {c : Clause} {r : Nat × Problem}
    (h : r ∈ c.problems opened) : r.1 = c.line := by
  have hone {line : Nat} {p : Problem} (h : r ∈ [(line, p)]) : r.1 = line := by
    rw [List.mem_singleton.mp h]
  cases c with
  | directive line text =>
    rcases List.mem_append.mp h with h | h
    · rw [tempoProblems] at h
      split at h
      · split at h
        · cases h
        · exact hone h
      · cases h
    · rw [timeSignatureProblems] at h
      split at h
      · split at h
        · cases h
        · exact hone h
      · cases h
  | header line header =>
    rw [problems] at h
    split at h
    · exact hone h
    · cases h
  | plain line text =>
    rw [problems] at h
    split at h
    · cases h
    split at h
    · exact hone h
    split at h
    · cases h
    · exact hone h

theorem line_of_mem_allProblems {opened : Bool} {cs : List Clause} {r : Nat × Problem}
    (h : r ∈ allProblems opened cs) : ∃ c ∈ cs, r.1 = c.line := by
  induction cs generalizing opened with
  | nil => cases h
  | cons c cs ih =>
    rcases List.mem_append.mp h with h | h
    · exact ⟨c, List.mem_cons_self, line_of_mem_problems h⟩
    · obtain ⟨d, hd, hline⟩ := ih h
      exact ⟨d, List.mem_cons_of_mem c hd, hline⟩

theorem line_of_staffLine? {c : Clause} {l : Nat × List Char} (h : c.staffLine? = some l) :
    l.1 = c.line := by
  cases c with
  | directive line text => cases h
  | header line header => cases h
  | plain line text =>
    rw [staffLine?] at h
    split at h
    · cases h
    · obtain ⟨a, -, rfl⟩ := Option.map_eq_some_iff.mp h
      rfl

end Clause

namespace Body

variable {defaults : Defaults} {ls : List (Nat × List Char)} {body : Body}

theorem reports_segment_within (h : LinesWithin n ls)
    (hbody : (segment defaults ls).value = .ok body) :
    ∀ r ∈ (segment defaults ls).reports, 1 ≤ r.1 ∧ r.1 ≤ n := by
  intro r hr
  rw [segment_reports (isReadable_of_segment hbody)] at hr
  obtain ⟨c, hc, hline⟩ := Clause.line_of_mem_allProblems hr
  obtain ⟨l, hl, hline'⟩ := Clause.line_of_mem_ofLines hc
  rw [hline, hline']
  exact h l hl

theorem linesWithin_segment (h : LinesWithin n ls)
    (hbody : (segment defaults ls).value = .ok body) :
    ∀ b ∈ body.blocks, LinesWithin n b.lines := by
  intro b hb l hl
  have hmem : l ∈ body.blocks.flatMap Block.lines := List.mem_flatMap.mpr ⟨b, hb, hl⟩
  rw [blocks_eq hbody, flatMap_lines_blocksBehind] at hmem
  obtain ⟨c, hc, hl⟩ := List.mem_filterMap.mp hmem
  obtain ⟨m, hm, hline⟩ := Clause.line_of_mem_ofLines ((List.dropWhile_suffix _).subset hc)
  rw [Clause.line_of_staffLine? hl, hline]
  exact h m hm

end Body

/-! ## The timeline

The lines of a block are lines of the text, and what is met in playing them is reported there. -/

namespace Assembly

theorem within_playStaff {line : Nat} (h : 1 ≤ line ∧ line ≤ n) (b : Block) (start : Float)
    (tokens : List Token) (a : Assembly) (id : String) :
    (playStaff line b start tokens a id).Within n := by
  rw [playStaff]
  rcases a.ensemble.resolve id with ⟨i, e, undeclared⟩
  dsimp only
  split
  · exact .bind (.note h) fun _ ↦ .bind (.ofExcept _) fun _ ↦ .bind (.ofExcept _) fun _ ↦
      .bind (Pass.within_atLine h _) fun _ ↦ .pure _
  · exact .bind (.ofExcept _) fun _ ↦ .bind (.ofExcept _) fun _ ↦
      .bind (Pass.within_atLine h _) fun _ ↦ .pure _

theorem within_tokens {line : Nat} (h : 1 ≤ line ∧ line ≤ n) (macros : Macro.Table)
    (content : List Char) : (tokens macros line content).Within n := by
  rw [tokens_eq]
  rcases macros.expand content with ⟨text, problems⟩
  exact .bind (.forM fun _ _ ↦ .note h) fun _ ↦ .bind (Pass.within_atLine h _) fun _ ↦ .pure _

theorem within_playLine {l : Nat × List Char} (h : 1 ≤ l.1 ∧ l.1 ≤ n) (macros : Macro.Table)
    (b : Block) (start : Float) (a : Assembly) : (playLine macros b start a l).Within n := by
  rw [playLine]
  cases Assignment.read? l.2 with
  | none => exact .pure _
  | some s =>
    exact .bind (within_tokens h macros _) fun _ ↦ .foldlM (within_playStaff h b start _) _ _

end Assembly

theorem Timeline.within_ofBlocks (macros : Macro.Table) (e : Ensemble) {bs : List Block}
    (h : ∀ b ∈ bs, LinesWithin n b.lines) : (ofBlocks macros e bs).Within n := by
  refine .foldlM_mem (fun b hb t ↦ ?_) _
  have hblock : (t.assembly.playBlock macros b t.secondsOffset).Within n :=
    .foldlM_mem (fun l hl ↦ Assembly.within_playLine (h b hb l hl) macros b _) _
  exact .bind hblock fun _ ↦ .bind (.ofExcept _) fun _ ↦ .bind (.ofExcept _) fun _ ↦
    .bind (.note trivial) fun _ ↦ .pure _

/-! ## Diagnostics

A diagnostic is added if none with its line and message is there yet. -/

namespace Journal

theorem nodup_diagnosticsOnto (ds : Array Diagnostic)
    (h : (ds.toList.map fun d ↦ (d.line, d.message)).Nodup) (rs : List (Nat × Problem)) :
    ((diagnosticsOnto ds rs).toList.map fun d ↦ (d.line, d.message)).Nodup := by
  induction rs generalizing ds with
  | nil => exact h
  | cons r rs ih =>
    refine ih (Diagnostic.insert ds (.ofProblem r.1 r.2)) ?_
    rw [Diagnostic.insert]
    split
    case isTrue => exact h
    case isFalse hnone =>
      rw [Array.toList_push, List.map_append, List.map_singleton, ← List.concat_eq_append]
      refine List.Nodup.concat (fun hmem ↦ hnone ?_) h
      obtain ⟨e, he, hkey⟩ := List.mem_map.mp hmem
      obtain ⟨hline, hmessage⟩ := Prod.mk.inj hkey
      exact Array.any_eq_true'.mpr ⟨e, Array.mem_toList_iff.mp he, by simp [hline, hmessage]⟩

/-- No message is given twice for a line. -/
theorem nodup_diagnostics (j : Journal) :
    (j.diagnostics.toList.map fun d ↦ (d.line, d.message)).Nodup :=
  nodup_diagnosticsOnto #[] List.nodup_nil j.reports

end Journal

/-! ## A whole compilation

The last stage puts the notes in order; it reports if there are none, and nothing else. -/

namespace Draft

/-- That there are no notes is reported at line 0, and nothing else is. -/
theorem reports_ofTimeline (body : Body) (t : Timeline) :
    (ofTimeline body t).reports =
      if (t.assembly.events.toList.mergeSort NoteEvent.notAfter).isEmpty then
        [(0, Problem.noPlayableNotes)]
      else [] := by
  have hrest {β : Type} (x : Except Fault (List GroupLayout)) (f : List GroupLayout → β) :
      (do return f (← Noted.ofExcept x) : Pass β).reports = [] := by
    cases x <;> rfl
  have hreport : (report 0 .noPlayableNotes).value = .ok () := rfl
  rw [ofTimeline]
  dsimp only
  split
  · rw [Pass.reports_bind (fun _ ↦ .bind (.ofExcept _) fun _ ↦ .pure _) hreport, hrest]
    rfl
  · exact hrest _ _

/-- What is reported is reported at lines of the text, and in the end that there are no notes. -/
theorem Stages.exists_reports {defaults : Defaults} {text : List Char} {d : Draft} {e : Ensemble}
    {t : Timeline} (h : Stages defaults text d e t) :
    ∃ rs : List (Nat × Problem), (∀ r ∈ rs, 1 ≤ r.1 ∧ r.1 ≤ text.count '\n' + 1) ∧
      (ofText defaults text).reports =
        rs ++ if d.events.isEmpty then [(0, Problem.noPlayableNotes)] else [] := by
  -- the lines keep their count when comments and definitions are taken out
  have hlines : LinesWithin (text.count '\n' + 1) (prepare text).1 := by
    rw [← (keeps_marks text).lines]
    exact linesWithin_numbered _
  have hmacros : (noteMacros (Comment.strip text)).Within (text.count '\n' + 1) :=
    .forM fun _ _ ↦ .note trivial
  have hcollect := Ensemble.within_collect defaults hlines
  have hplay := Timeline.within_ofBlocks (prepare text).2 e
    (Body.linesWithin_segment hlines h.segment)
  refine ⟨(noteMacros (Comment.strip text)).reports ++
    ((Ensemble.collect defaults (prepare text).1).reports ++
      ((Body.segment defaults (prepare text).1).reports ++
        (Timeline.ofBlocks (prepare text).2 e d.body.blocks).reports)), ?_, ?_⟩
  · simp only [List.forall_mem_append]
    exact ⟨hmacros.reports, hcollect.reports, Body.reports_segment_within hlines h.segment,
      hplay.reports⟩
  · have hlast := reports_ofTimeline d.body t
    rw [← h.events] at hlast
    rw [Pass.reports, h.notes]
    simp only [Journal.reports_append, List.append_assoc]
    rw [← hlast]
    rfl

end Draft

/-- Where the diagnostics of a score point, if its text has a number of lines. -/
structure Score.Located (count : Nat) (s : Score) : Prop where
  /-- They point at lines of the text.  Only that there are no notes is said of the score as a
  whole: last, and if there are none. -/
  lines : ∃ ds, s.diagnostics = ds ++ (if s.hasPlayableNotes then [] else
      [Diagnostic.ofProblem 0 .noPlayableNotes]) ∧
    ∀ d ∈ ds, 1 ≤ d.line ∧ d.line ≤ count
  /-- No message is given twice for a line. -/
  distinct : (s.diagnostics.map fun d ↦ (d.line, d.message)).Nodup

namespace Score

/-- **Diagnostics point at lines.**  What is left of a text without comments and definitions has as
many lines, and every character stays in its line.  So diagnostics point at lines of the text, each
message once, except for the last one of a score without notes. -/
theorem located_ofText (defaults : Defaults) (text : String) :
    Keeps text.toList (Macro.Table.collect ∅ (Comment.strip text.toList)).1
        (Draft.marks text.toList) ∧
      ∀ s, (ofText defaults text).1 = .ok s → s.Located (text.toList.count '\n' + 1) := by
  have hkeeps := Draft.keeps_marks text.toList
  refine ⟨hkeeps, fun s h ↦ ?_⟩
  obtain ⟨d, hd, rfl, -⟩ := ofText_ok h
  obtain ⟨e, t, hstages⟩ := Draft.stages_ofText hd
  obtain ⟨rs, hrs, hreports⟩ := hstages.exists_reports
  have hrange : ∀ x ∈ Journal.diagnosticsOnto #[] rs,
      1 ≤ x.line ∧ x.line ≤ ((text.toList.count '\n' + 1 : Nat) : Int) := by
    intro x hx
    obtain ⟨r, hr, rfl⟩ := Journal.exists_report hx
    exact ⟨Int.ofNat_le.mpr (hrs r hr).1, Int.ofNat_le.mpr (hrs r hr).2⟩
  refine ⟨⟨(Journal.diagnosticsOnto #[] rs).toList, ?_,
    fun x hx ↦ hrange x (Array.mem_toList_iff.mp hx)⟩, Journal.nodup_diagnostics _⟩
  show (Journal.diagnosticsOnto #[] (Draft.ofText defaults text.toList).reports).toList = _
  rw [hreports, hasPlayableNotes, Draft.score]
  dsimp only
  cases d.events.isEmpty with
  | false => exact congrArg _ (congrArg _ (List.append_nil rs)) |>.trans (List.append_nil _).symm
  | true =>
    -- no other diagnostic is at line 0
    obtain ⟨-, x, hx, hline, -⟩ | hpush := Diagnostic.insert_cases
      (Journal.diagnosticsOnto #[] rs) (.ofProblem 0 .noPlayableNotes)
    · have := (hrange x hx).1
      rw [hline] at this
      exact absurd this (by decide)
    · rw [if_pos rfl, Journal.diagnosticsOnto_concat, hpush, Array.toList_push]
      rfl

/-- A definition over three lines, two comments, and a reference without a definition. -/
def foreword : String := "$a = \x7b\nc4\n\x7d\n// loud\nm 1\np: $a $b %% twice"

theorem located_ofText_foreword : ∃ s, (ofText {} foreword).1 = .ok s ∧ s.Located 6 := by
  obtain ⟨s, hs⟩ := exists_ok (x := (ofText {} foreword).1) (by decide +kernel)
  exact ⟨s, hs, (located_ofText {} foreword).2 s hs⟩

end Score

end TextScore
