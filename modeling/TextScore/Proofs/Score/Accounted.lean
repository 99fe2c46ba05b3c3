import TextScore.Proofs.Measure.Reserved
import TextScore.Proofs.Score.Idle
import TextScore.Proofs.Score.Roster

/-!
# What becomes of the lines

No line is dropped silently: so it is promised.  A line outside of meta blocks opens a block, stands
in a block, sets something, declares something, belongs to the groups, is an instruction, or is
reported.  This holds of every line that is not idle: what one of the two readings of the lines
passes over is left to the other.  Idle lines are lost, and with them staff lines of instruments
whose ids happen to be keywords.

A line is read twice, and each reading tries its forms in an order of its own.  The body sees
directives first, then measure headers, then what looks like a declaration, which it leaves to the
ensemble, and then staff lines.  The ensemble sees groups, closing braces and declarations, and
leaves all else to the body.  So a line can be lost in two ways only: it looks like a directive and
sets nothing, or it looks like a declaration and declares nothing.  In both cases the first word
decides, and a staff line begins with the id of an instrument, which may be such a word.

What becomes of a line is said of the compiled score and its journal (`Score.Accounts`), one
constructor for each thing that a line can be.  Each constructor says what the score has from the
line, and not only what form the line has: the block is the one that stands at its place among all
blocks, the tempo is the one that holds behind the line, the diagnostic is in the score.

That an idle line is lost is stated as strongly: the body is the same without it, and so is what is
noted on the way.

## What is here

* `Score.Accounts` — what becomes of a line in a compiled score.
* `Body.HasLine.accounts`, `Score.Accounts.of_ensemble` — what the two readings get from a line.
* `Body.HasLine.exists_block_of_read?` — staff lines behind a measure header.
* `Score.accounts_ofText` — every line that is not idle becomes something; an idle one is lost.
* `Score.lost_timpani` — the staff line of an instrument whose id is a keyword is lost.
-/

set_option autoImplicit false

namespace TextScore

open Text Number

/-! ## The clauses of a line

A line outside of meta blocks is one clause of the body or a row of clauses: measure headers, and
what is behind the last of them. -/

namespace Clause

section

variable {before : List (Nat × List Char)} {l : Nat × List Char}

theorem ofLine_directive (hne : trim l.2 ≠ []) (hdir : isDirective (trim l.2) = true) :
    ofLine false l = [directive l.1 (trim l.2)] := by
  rw [ofLine, if_neg (by rwa [List.isEmpty_iff]), ofText, if_pos (by rw [hdir]; rfl)]

theorem ofLine_header (hne : trim l.2 ≠ []) (hdir : isDirective (trim l.2) = false)
    {h : MeasureHeader} (hread : MeasureHeader.read? (trim l.2) = some h) :
    ∃ cs, ofLine false l = header l.1 h :: cs := by
  rw [ofLine, if_neg (by rwa [List.isEmpty_iff]), ofText,
    if_neg (by rw [hdir]; exact Bool.false_ne_true)]
  split
  case h_1 h' hread' =>
    obtain rfl := Option.some.inj (hread.symm.trans hread')
    exact ⟨_, rfl⟩
  case h_2 hread' => cases hread.symm.trans hread'

theorem ofLine_plain (hne : trim l.2 ≠ []) (hdir : isDirective (trim l.2) = false)
    (hread : MeasureHeader.read? (trim l.2) = none) :
    ofLine false l = [plain l.1 (trim l.2)] := by
  rw [ofLine, if_neg (by rwa [List.isEmpty_iff]), ofText,
    if_neg (by rw [hdir]; exact Bool.false_ne_true)]
  split
  case h_1 h' hread' => cases hread.symm.trans hread'
  case h_2 => rfl

/-- A line outside of meta blocks has its clauses between those before and those after it. -/
theorem ofLines_outside (after : List (Nat × List Char)) (hmeta : metaBehind before = false)
    {c : Clause} {cs : List Clause} (hl : ofLine false l = c :: cs) :
    ∃ ds, ofLines false (before ++ l :: after) = ofLines false before ++ c :: ds := by
  rw [ofLines_append, ← metaBehind, hmeta, ofLines, hl]
  exact ⟨_, rfl⟩

end

/-- What is reported of a clause is reported of all clauses around it. -/
theorem mem_allProblems {opened : Bool} {cs ds : List Clause} {c : Clause} {r : Nat × Problem}
    (h : r ∈ c.problems (opened || cs.any isHeader)) : r ∈ allProblems opened (cs ++ c :: ds) := by
  rw [allProblems_append, allProblems]
  exact List.mem_append_right _ (List.mem_append_left _ h)

end Clause

/-! ## Lines and what becomes of them

Behind a measure header on the same line, a directive or a staff line may stand; then the line opens
a block, and that is what is said of it. -/

/-- What is known of the body behind some lines. -/
def Segmenting.behind (defaults : Defaults) (ls : List (Nat × List Char)) :
    Except Fault Segmenting :=
  (ls.foldlM readLine { tempo := defaults.tempo, timeSignature := defaults.timeSignature }).value

/-- A line becomes something in a compiled score that has the given body and journal. -/
inductive Score.Accounts (defaults : Defaults) (body : Body) (s : Score) (j : Journal)
    (before : List (Nat × List Char)) (l : Nat × List Char) : Prop
  /-- It opens the block that stands behind those of the measure headers before it. -/
  | opensBlock (h : MeasureHeader) (b : Block) (hread : MeasureHeader.read? (trim l.2) = some h)
    (hblock : body.blocks[(Clause.ofLines false before).countP Clause.isHeader]? = some b)
    (hfirst : b.first = h.firstNumber)
    (hlast : b.last = (max h.firstNumber h.lastNumber : Nat))
  /-- It is a line of the block that the latest measure header before it opens. -/
  | plays (n : Nat) (b : Block)
    (hcount : (Clause.ofLines false before).countP Clause.isHeader = n + 1)
    (hblock : body.blocks[n]? = some b) (hline : (l.1, trim l.2) ∈ b.lines)
  /-- Behind it its tempo holds. -/
  | setsTempo (t : TempoNumeral) (g : Segmenting) (hread : findTempo? (trim l.2) = some t)
    (hbehind : Segmenting.behind defaults (before ++ [l]) = .ok g) (hset : g.tempo = t.value)
  /-- Behind it its time signature holds. -/
  | setsTimeSignature (n m : List Char) (g : Segmenting)
    (hread : findTimeSignature? (trim l.2) = some (n, m))
    (hbehind : Segmenting.behind defaults (before ++ [l]) = .ok g)
    (hset : g.timeSignature = ⟨digitsValue n, digitsValue m⟩)
  /-- Behind it its title is the title. -/
  | setsTitle (t : List Char) (g : Segmenting) (hread : findTitle? (trim l.2) = some t)
    (hbehind : Segmenting.behind defaults (before ++ [l]) = .ok g) (hset : g.title? = some t)
  /-- Behind it its composer is the composer. -/
  | setsComposer (t : List Char) (g : Segmenting) (hread : findComposer? (trim l.2) = some t)
    (hbehind : Segmenting.behind defaults (before ++ [l]) = .ok g) (hset : g.composer? = some t)
  /-- It declares an instrument. -/
  | declares (d : Declaration) (i : Instrument) (hread : d ∈ Declaration.onLine (trim l.2))
    (hmem : i ∈ s.instruments) (hid : i.id = d.key)
  /-- It opens a group. -/
  | opensGroup (h : Heading) (hread : Heading.read? (trim l.2) = some h)
    (hnote : .groupOpened (String.ofList h.name) l.1 ∈ j)
  /-- It is a closing brace. -/
  | closesGroup (hbrace : trim l.2 = ['}'])
  /-- It is an instruction. -/
  | instructs (hinstruction : startsWithKeyword (trim l.2) "instruction".toList = true)
  /-- It is reported. -/
  | reported (d : Diagnostic) (hmem : d ∈ s.diagnostics) (hline : d.line = l.1)

/-! ## What the body gets from a line

`Body.HasLine` is what all of the lemmas need: a body that was read from lines with this one among
them, and a score that shows what was reported. -/

/-- A body has a line that is not blank and stands outside of meta blocks, and what is reported of
the lines is shown in a score. -/
structure Body.HasLine (defaults : Defaults) (body : Body) (s : Score)
    (before : List (Nat × List Char)) (l : Nat × List Char) (after : List (Nat × List Char)) :
    Prop where
  /-- The body is that of the lines. -/
  value : (segment defaults (before ++ l :: after)).value = .ok body
  /-- What is reported is shown. -/
  shown : ∀ r ∈ (segment defaults (before ++ l :: after)).reports,
    ∃ d ∈ s.diagnostics, d.line = r.1
  /-- No meta block is open. -/
  outside : Clause.metaBehind before = false
  /-- The line is not blank. -/
  nonblank : trim l.2 ≠ []

namespace Body.HasLine

variable {defaults : Defaults} {body : Body} {s : Score} {j : Journal}
  {before after : List (Nat × List Char)} {l : Nat × List Char}

/-- What is reported of the line is shown. -/
theorem accounts_of_problem (h : HasLine defaults body s before l after) {c : Clause}
    {cs : List Clause} (hl : Clause.ofLine false l = c :: cs) (p : Problem)
    (hp : (l.1, p) ∈ c.problems ((Clause.ofLines false before).any Clause.isHeader)) :
    Score.Accounts defaults body s j before l := by
  have hshown := h.shown
  obtain ⟨ds, hds⟩ := Clause.ofLines_outside after h.outside hl
  rw [segment_reports (isReadable_of_segment h.value), hds] at hshown
  obtain ⟨d, hd, hline⟩ := hshown _ (Clause.mem_allProblems hp)
  exact .reported d hd hline

/-- Behind a line that is a directive this directive has taken effect. -/
theorem behind_directive (h : HasLine defaults body s before l after)
    (hl : Clause.ofLine false l = [.directive l.1 (trim l.2)]) :
    ∃ g : Segmenting, Segmenting.behind defaults (before ++ [l]) =
      .ok (g.after (.directive l.1 (trim l.2))) := by
  have hread := isReadable_of_segment h.value
  obtain ⟨ds, hds⟩ := Clause.ofLines_outside after h.outside hl
  rw [hds, List.append_cons, List.all_append, Bool.and_eq_true] at hread
  rw [Segmenting.behind, Segmenting.foldlM_readLine_value, Clause.ofLines_concat, h.outside, hl,
    Segmenting.run, if_pos hread.1, List.foldl_append]
  exact ⟨_, rfl⟩

/-- A tempo is set or reported. -/
theorem accounts_tempo (h : HasLine defaults body s before l after)
    (hl : Clause.ofLine false l = [.directive l.1 (trim l.2)]) {t : TempoNumeral}
    (hread : findTempo? (trim l.2) = some t) : Score.Accounts defaults body s j before l := by
  by_cases hpos : t.value > 0
  · obtain ⟨g, hg⟩ := h.behind_directive hl
    refine .setsTempo t _ hread hg ?_
    show (Clause.directive l.1 (trim l.2)).tempo?.getD g.tempo = _
    rw [Clause.tempo?, hread, Option.bind_some, if_pos hpos, Option.getD_some]
  · refine h.accounts_of_problem hl (.ignoredTempo (String.ofList t.text))
      (List.mem_append_left _ ?_)
    simp only [Clause.tempoProblems, hread, if_neg hpos]
    exact List.mem_singleton_self _

/-- So is a time signature. -/
theorem accounts_timeSignature (h : HasLine defaults body s before l after)
    (hl : Clause.ofLine false l = [.directive l.1 (trim l.2)]) {n m : List Char}
    (hread : findTimeSignature? (trim l.2) = some (n, m)) :
    Score.Accounts defaults body s j before l := by
  by_cases hpos : 0 < digitsValue n ∧ 0 < digitsValue m
  · obtain ⟨g, hg⟩ := h.behind_directive hl
    refine .setsTimeSignature n m _ hread hg ?_
    show (Clause.directive l.1 (trim l.2)).timeSignature?.getD g.timeSignature = _
    rw [Clause.timeSignature?, hread, Option.bind_some, if_pos hpos, Option.getD_some]
  · refine h.accounts_of_problem hl (.ignoredTimeSignature (digitsValue n) (digitsValue m))
      (List.mem_append_right _ ?_)
    simp only [Clause.timeSignatureProblems, hread, if_neg hpos]
    exact List.mem_singleton_self _

/-- A directive sets something or is reported, unless there is nothing in it. -/
theorem accounts_directive (h : HasLine defaults body s before l after)
    (hdir : isDirective (trim l.2) = true) (hidle : isIdleInBody (trim l.2) = false) :
    Score.Accounts defaults body s j before l := by
  have hl := Clause.ofLine_directive h.nonblank hdir
  obtain ⟨g, hg⟩ := h.behind_directive hl
  rw [isIdleInBody, if_pos hdir] at hidle
  -- the first value that is found accounts for the line
  cases htempo : findTempo? (trim l.2) with
  | some t => exact h.accounts_tempo hl htempo
  | none =>
  cases htime : findTimeSignature? (trim l.2) with
  | some f => exact h.accounts_timeSignature hl htime
  | none =>
  cases htitle : findTitle? (trim l.2) with
  | some t =>
    refine .setsTitle t _ htitle hg ?_
    show (findTitle? (trim l.2) <|> g.title?) = _
    rw [htitle]
    rfl
  | none =>
  cases hcomposer : findComposer? (trim l.2) with
  | some t =>
    refine .setsComposer t _ hcomposer hg ?_
    show (findComposer? (trim l.2) <|> g.composer?) = _
    rw [hcomposer]
    rfl
  | none =>
    rw [htempo, htime, htitle, hcomposer] at hidle
    cases hidle

/-- A measure header opens its block. -/
theorem accounts_header (h : HasLine defaults body s before l after)
    (hdir : isDirective (trim l.2) = false) {header : MeasureHeader}
    (hread : MeasureHeader.read? (trim l.2) = some header) :
    Score.Accounts defaults body s j before l := by
  obtain ⟨cs, hl⟩ := Clause.ofLine_header h.nonblank hdir hread
  obtain ⟨ds, hds⟩ := Clause.ofLines_outside after h.outside hl
  obtain ⟨b, hb, hfirst, hlast⟩ := getElem?_blocksBehind_header defaults []
    (Clause.ofLines false before) ds l.1 header
  rw [← hds, ← blocks_eq h.value] at hb
  exact .opensBlock header b hread hb hfirst hlast

/-- A staff line belongs to the block that the latest measure header before it opens. -/
theorem exists_block (h : HasLine defaults body s before l after)
    (hl : Clause.ofLine false l = [.plain l.1 (trim l.2)])
    (hdecl : isDeclarationLine (trim l.2) = false) {a : Assignment}
    (hassign : Assignment.read? (trim l.2) = some a) {n : Nat}
    (hcount : (Clause.ofLines false before).countP Clause.isHeader = n + 1) :
    ∃ b, body.blocks[n]? = some b ∧ (l.1, trim l.2) ∈ b.lines := by
  have hstaff : (Clause.plain l.1 (trim l.2)).staffLine? = some (l.1, trim l.2) := by
    rw [Clause.staffLine?, if_neg (by rw [hdecl]; exact Bool.false_ne_true), hassign]
    rfl
  obtain ⟨ds, hds⟩ := Clause.ofLines_outside after h.outside hl
  rw [blocks_eq h.value, hds]
  exact getElem?_blocksBehind_staffLine defaults [] ds hstaff hcount

/-- Any other line is one of the current block or is reported, unless it is left to the
declarations. -/
theorem accounts_plain (h : HasLine defaults body s before l after)
    (hl : Clause.ofLine false l = [.plain l.1 (trim l.2)])
    (hdecl : isDeclarationLine (trim l.2) = false) :
    Score.Accounts defaults body s j before l := by
  have hdecl' : ¬isDeclarationLine (trim l.2) = true := by
    rw [hdecl]
    exact Bool.false_ne_true
  cases hassign : Assignment.read? (trim l.2) with
  | none =>
    refine h.accounts_of_problem hl (.unrecognisedLine (String.ofList (trim l.2))) ?_
    rw [Clause.problems, if_neg hdecl', hassign]
    exact List.mem_singleton_self _
  | some a =>
    -- in front of all measure headers a staff line is reported
    cases hcount : (Clause.ofLines false before).countP Clause.isHeader with
    | zero =>
      have hany : (Clause.ofLines false before).any Clause.isHeader = false := by
        rw [List.any_eq_false]
        exact List.countP_eq_zero.mp hcount
      refine h.accounts_of_problem hl .staffLineTooEarly ?_
      rw [Clause.problems, if_neg hdecl', hassign, hany]
      exact List.mem_singleton_self _
    | succ n =>
      obtain ⟨b, hb, hline⟩ := h.exists_block hl hdecl hassign hcount
      exact .plays n b hcount hb hline

/-- A staff line behind a measure header is never lost, unless its first name is a keyword. -/
theorem exists_block_of_read? (h : HasLine defaults body s before l after) {a : Assignment}
    (hassign : Assignment.read? (trim l.2) = some a) (hres : isReserved (trim l.2) = false)
    {n : Nat} (hcount : (Clause.ofLines false before).countP Clause.isHeader = n + 1) :
    ∃ b, body.blocks[n]? = some b ∧ (l.1, trim l.2) ∈ b.lines := by
  obtain ⟨htaken, hheader⟩ := Assignment.isReserved_eq (trim_trim l.2) hassign
  rw [hres, Bool.or_eq_false_iff] at htaken
  exact h.exists_block (Clause.ofLine_plain h.nonblank htaken.1 hheader) htaken.2 hassign hcount

/-- The body uses or reports every line that is not idle for it. -/
theorem accounts (h : HasLine defaults body s before l after)
    (hidle : isIdleInBody (trim l.2) = false) : Score.Accounts defaults body s j before l := by
  cases hdir : isDirective (trim l.2) with
  | true => exact h.accounts_directive hdir hidle
  | false =>
    cases hread : MeasureHeader.read? (trim l.2) with
    | some header => exact h.accounts_header hdir hread
    | none =>
      refine h.accounts_plain (Clause.ofLine_plain h.nonblank hdir hread) ?_
      rw [isIdleInBody, if_neg (by rw [hdir]; exact Bool.false_ne_true), hread] at hidle
      exact hidle

end Body.HasLine

/-! ## What the ensemble gets from a line

What is declared on a line is registered, so the instrument is in the score; but the name and the
transposition may be those of a later declaration. -/

/-- A line outside of meta blocks declares what stands on it. -/
theorem Declaration.mem_ofLines {before after : List (Nat × List Char)} {l : Nat × List Char}
    (hmeta : MetaBlock.behind before = false) (hopens : MetaBlock.opens (trim l.2) = false)
    {d : Declaration} (hd : d ∈ onLine (trim l.2)) : d ∈ ofLines (before ++ l :: after) := by
  rw [ofLines, List.mem_flatMap]
  refine ⟨(before, l), ?_, ?_⟩
  · rw [withPast_append, List.nil_append, withPast]
    exact List.mem_append_right _ List.mem_cons_self
  · rwa [hmeta, hopens, Bool.or_false, if_neg Bool.false_ne_true]

namespace Collecting

variable {c : Collecting} {l : Nat × List Char}

/-- The opening of a group is noted. -/
theorem groupOpened_mem (hmeta : c.inMeta = false) (hopens : MetaBlock.opens (trim l.2) = false)
    {h : Heading} (hread : Heading.read? (trim l.2) = some h) :
    .groupOpened (String.ofList h.name) l.1 ∈ (readLine c l).notes := by
  have hne : (trim l.2).isEmpty = false := by
    by_contra hempty
    rw [Bool.not_eq_false, List.isEmpty_iff] at hempty
    rw [hempty] at hread
    cases hread
  rw [readLine]
  rw [hne, if_neg Bool.false_ne_true, step, hmeta, if_neg Bool.false_ne_true, hopens,
    if_neg Bool.false_ne_true, hread]
  dsimp only
  refine Noted.mem_notes_bind (fun _ ↦ appends_declareAll _ _ _) ?_
  rw [Noted.notes_note]
  exact Array.mem_singleton_self _

end Collecting

/-! ## Whole scores

A score shows what each of its stages has reported. -/

namespace Draft.Stages

variable {defaults : Defaults} {text : List Char} {d : Draft} {e : Ensemble} {t : Timeline}
  {before after : List (Nat × List Char)} {l : Nat × List Char}

/-- What is reported of the body is shown. -/
theorem exists_diagnostic (h : Stages defaults text d e t) {r : Nat × Problem}
    (hr : r ∈ (Body.segment defaults (prepare text).1).reports) :
    ∃ x ∈ (d.score (ofText defaults text).notes).diagnostics, x.line = r.1 := by
  have hmem : (r.1, r.2) ∈ (ofText defaults text).reports := by
    rw [Pass.reports, h.notes]
    simp only [Journal.reports_append]
    exact List.mem_append_right _ (List.mem_append_right _ (List.mem_append_left _ hr))
  obtain ⟨x, hx, hline, -⟩ := Journal.exists_diagnostic hmem
  exact ⟨x, Array.mem_toList_iff.mpr hx, hline⟩

/-- The opening of a group is noted. -/
theorem groupOpened_mem (h : Stages defaults text d e t)
    (hls : (prepare text).1 = before ++ l :: after) (hmeta : MetaBlock.behind before = false)
    (hopens : MetaBlock.opens (trim l.2) = false) {heading : Heading}
    (hread : Heading.read? (trim l.2) = some heading) :
    .groupOpened (String.ofList heading.name) l.1 ∈ (ofText defaults text).notes := by
  have hcollect := h.collect
  rw [hls, Ensemble.collect, Noted.value_bind fun _ ↦ .pure _] at hcollect
  obtain ⟨c, hc, -⟩ := bind_eq_ok hcollect
  rw [List.foldlM_append, Noted.value_bind fun c ↦
    .foldlM Collecting.appends_readLine (l :: after) c] at hc
  obtain ⟨c₁, hc₁, -⟩ := bind_eq_ok hc
  have hc₁Meta : c₁.inMeta = false := (Collecting.holds_foldlM hc₁).inMeta.trans hmeta
  have hmem := Noted.mem_notes_foldlM Collecting.appends_readLine after hc₁
    (Collecting.groupOpened_mem hc₁Meta hopens hread)
  rw [h.notes, hls, Ensemble.collect]
  exact Array.mem_append_right _
    (Array.mem_append_left _ (Noted.mem_notes_bind (fun _ ↦ .pure _) hmem))

end Draft.Stages

namespace Score

variable {defaults : Defaults} {body : Body} {s : Score} {j : Journal}
  {before after : List (Nat × List Char)} {l : Nat × List Char}

/-- What a draft notes stands in the journal. -/
theorem mem_journal {text : String} {n : Entry}
    (hn : n ∈ (Draft.ofText defaults text.toList).notes) : n ∈ (ofText defaults text).2 := by
  rw [Noted.notes] at hn
  rw [ofText]
  revert hn
  rcases (Draft.ofText defaults text.toList).outcome with ⟨f | d, j⟩ <;> intro hn
  · exact hn
  · exact Array.mem_push.mpr (.inl hn)

/-- The ensemble uses every line that is not idle for it. -/
theorem Accounts.of_ensemble {used : List String}
    (hroster : Roster (Declaration.ofLines (before ++ l :: after)) used j s)
    (hmeta : MetaBlock.behind before = false) (hopens : MetaBlock.opens (trim l.2) = false)
    (hgroup : ∀ h, Heading.read? (trim l.2) = some h →
      .groupOpened (String.ofList h.name) l.1 ∈ j)
    (hidle : isIdleInEnsemble (trim l.2) = false) : Accounts defaults body s j before l := by
  cases hhead : Heading.read? (trim l.2) with
  | some h => exact .opensGroup h hhead (hgroup h hhead)
  | none =>
  cases hdecl : Declaration.onLine (trim l.2) with
  | cons d ds =>
    have hd : d ∈ Declaration.onLine (trim l.2) := by
      rw [hdecl]
      exact List.mem_cons_self
    -- the instruments of a score begin with the declared ids
    have hid : d.key ∈ s.instruments.map Instrument.id := by
      rw [hroster.instruments, Declaration.ids]
      refine List.mem_append_left _ (List.mem_eraseDups.mpr ?_)
      exact List.mem_map_of_mem (Declaration.mem_ofLines hmeta hopens hd)
    obtain ⟨i, hi, hkey⟩ := List.mem_map.mp hid
    exact .declares d i hd hi hkey
  | nil =>
    by_cases hbrace : trim l.2 = ['}']
    · exact .closesGroup hbrace
    · refine .instructs ?_
      have hbrace' : (trim l.2 != ['}']) = true := bne_iff_ne.mpr hbrace
      rw [isIdleInEnsemble, hhead, hdecl, hbrace'] at hidle
      simpa using hidle

/-- **What becomes of the lines.**  In every score that compiles, every line that is not blank and
stands outside of meta blocks is used or reported unless it is idle.  A staff line behind a measure
header is one of its block unless its first name is a keyword.  An idle line is lost: without it the
body is the same, and so is the ensemble unless the line has a closing brace at its end.  Lines that
say nothing are no loss, but a staff line may be idle, as in `lost_timpani`. -/
theorem accounts_ofText {defaults : Defaults} {text : String} {s : Score}
    (h : (ofText defaults text).1 = .ok s) :
    ∃ body, (Body.segment defaults (Draft.prepare text.toList).1).value = .ok body ∧
      ∀ before l after, (Draft.prepare text.toList).1 = before ++ l :: after → trim l.2 ≠ [] →
        Clause.isOutside before l = true →
        (isIdle (trim l.2) = false →
          Accounts defaults body s (ofText defaults text).2 before l) ∧
        (∀ a n, Assignment.read? (trim l.2) = some a → isReserved (trim l.2) = false →
          (Clause.ofLines false before).countP Clause.isHeader = n + 1 →
          ∃ b, body.blocks[n]? = some b ∧ (l.1, trim l.2) ∈ b.lines) ∧
        (isIdle (trim l.2) = true →
          (Body.segment defaults (before ++ l :: after)).outcome =
              (Body.segment defaults (before ++ after)).outcome ∧
            ((trim l.2).getLast? ≠ some '}' →
              (Ensemble.collect defaults (before ++ l :: after)).outcome =
                (Ensemble.collect defaults (before ++ after)).outcome)) := by
  obtain ⟨d, hd, rfl, hreports⟩ := ofText_ok h
  obtain ⟨e, t, hstages⟩ := Draft.stages_ofText hd
  have hroster := Roster.of_stages hstages hreports
  refine ⟨d.body, hstages.segment, ?_⟩
  intro before l after hls hne hout
  obtain ⟨hmeta, hopens⟩ := Clause.isOutside_iff.mp hout
  have hbehind := Clause.behind_of_metaBehind hmeta
  have hline : Body.HasLine defaults d.body (d.score (Draft.ofText defaults text.toList).notes)
      before l after :=
    ⟨hls ▸ hstages.segment, fun r hr ↦ hstages.exists_diagnostic (hls ▸ hr), hmeta, hne⟩
  refine ⟨?_, ?_, ?_⟩
  · intro hidle
    rw [isIdle, Bool.and_eq_false_iff] at hidle
    -- a line is idle only if both readings pass over it
    rcases hidle with hidle | hidle
    · exact hline.accounts hidle
    · rw [hls] at hroster
      exact .of_ensemble hroster hbehind hopens
        (fun _ hread ↦ mem_journal (hstages.groupOpened_mem hls hbehind hopens hread)) hidle
  · intro a n hassign hres hcount
    exact hline.exists_block_of_read? hassign hres hcount
  · intro hidle
    rw [isIdle, Bool.and_eq_true] at hidle
    exact ⟨Body.outcome_segment_idle hout hidle.1, Ensemble.outcome_collect_idle hout hidle.2⟩

/-- A score whose only staff line is lost, since the id of its instrument is a keyword. -/
def timpani : String := "def time \"Timpani\"\nmeasure 1\ntime: c4"

theorem accounts_ofText_timpani :
    ∃ s, (ofText {} timpani).1 = .ok s ∧
      ∃ body, (Body.segment {} (Draft.prepare timpani.toList).1).value = .ok body ∧
        Accounts {} body s (ofText {} timpani).2 [] (1, "def time \"Timpani\"".toList) ∧
        (Body.segment {} (Draft.prepare timpani.toList).1).outcome =
          (Body.segment {} ((Draft.prepare timpani.toList).1.take 2)).outcome := by
  obtain ⟨s, hs⟩ := exists_ok (x := (ofText {} timpani).1) (by decide +kernel)
  obtain ⟨body, hbody, hlines⟩ := accounts_ofText hs
  have hfirst := hlines [] (1, "def time \"Timpani\"".toList)
    ((Draft.prepare timpani.toList).1.drop 1) (by decide +kernel) (by decide +kernel)
    (by decide +kernel)
  have hlast := hlines ((Draft.prepare timpani.toList).1.take 2) (3, "time: c4".toList) []
    (by decide +kernel) (by decide +kernel) (by decide +kernel)
  have hwhole : (Draft.prepare timpani.toList).1 =
      (Draft.prepare timpani.toList).1.take 2 ++ [(3, "time: c4".toList)] := by decide +kernel
  refine ⟨s, hs, body, hbody, hfirst.1 (by decide +kernel), ?_⟩
  have hsame := (hlast.2.2 (by decide +kernel)).1
  rwa [← hwhole, List.append_nil] at hsame

/-- The staff line of a declared instrument behind a measure header is neither used nor reported. -/
theorem lost_timpani :
    ∃ s, (ofText {} timpani).1 = .ok s ∧ s.instruments.map Instrument.id = ["time"] ∧
      ∃ body, (Body.segment {} (Draft.prepare timpani.toList).1).value = .ok body ∧
        body.blocks.length = 1 ∧
        ∃ before l, (Draft.prepare timpani.toList).1 = before ++ [l] ∧ trim l.2 ≠ [] ∧
          Clause.isOutside before l = true ∧
          Assignment.read? (trim l.2) = some ⟨["time".toList], "c4".toList⟩ ∧
          ¬Accounts {} body s (ofText {} timpani).2 before l := by
  obtain ⟨s, hs, hscore⟩ := exists_ok_of_any (x := (ofText {} timpani).1) (f := fun s ↦
    s.instruments.map Instrument.id = ["time"] ∧ ∀ d ∈ s.diagnostics, d.line ≠ 3)
    (by decide +kernel)
  obtain ⟨hinstruments, hdiagnostics⟩ := of_decide_eq_true hscore
  obtain ⟨body, hbody, hblocks⟩ := exists_ok_of_any
    (x := (Body.segment {} (Draft.prepare timpani.toList).1).value)
    (f := fun body ↦ body.blocks.map Block.lines = [[]]) (by decide +kernel)
  replace hblocks := of_decide_eq_true hblocks
  have hlength : body.blocks.length = 1 := by
    rw [← List.length_map Block.lines, hblocks]
    rfl
  refine ⟨s, hs, hinstruments, body, hbody, hlength, (Draft.prepare timpani.toList).1.take 2,
    (3, "time: c4".toList), by decide +kernel, by decide +kernel, by decide +kernel,
    by decide +kernel, ?_⟩
  have hnone : MeasureHeader.read? "time: c4".toList = none ∧ findTempo? "time: c4".toList = none ∧
      findTimeSignature? "time: c4".toList = none ∧ findTitle? "time: c4".toList = none ∧
      findComposer? "time: c4".toList = none ∧ Declaration.onLine "time: c4".toList = [] ∧
      Heading.read? "time: c4".toList = none := by decide +kernel
  have htrim : trim "time: c4".toList = "time: c4".toList := by decide +kernel
  obtain ⟨hheader, htempo, htime, htitle, hcomposer, hdecl, hheading⟩ := htrim ▸ hnone
  -- nothing that could become of the line has become of it
  intro haccounts
  cases haccounts with
  | opensBlock h b hread => cases hheader.symm.trans hread
  | plays n b hcount hblock hline =>
    have hmem : b.lines ∈ body.blocks.map Block.lines :=
      List.mem_map_of_mem (List.mem_of_getElem? hblock)
    rw [hblocks, List.mem_singleton] at hmem
    rw [hmem] at hline
    exact absurd hline List.not_mem_nil
  | setsTempo t g hread => cases htempo.symm.trans hread
  | setsTimeSignature n m g hread => cases htime.symm.trans hread
  | setsTitle t g hread => cases htitle.symm.trans hread
  | setsComposer t g hread => cases hcomposer.symm.trans hread
  | declares d i hread => exact absurd (hdecl ▸ hread) List.not_mem_nil
  | opensGroup h hread => cases hheading.symm.trans hread
  | closesGroup hbrace => exact absurd hbrace (by decide +kernel)
  | instructs hinstruction => exact absurd hinstruction (by decide +kernel)
  | reported d hmem hline => exact hdiagnostics d hmem hline

end Score

end TextScore
