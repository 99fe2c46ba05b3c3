import TextScore.Proofs.Reports
import TextScore.Proofs.Score.Stages

/-!
# The clauses of a body

A line of the body says one thing, or several if something stands behind a measure header.  Each of
them is a *clause*.  Which clauses a line has depends on nothing but its text and on whether a meta
block is open; so the clauses of a body can be read off before any of them takes effect.

Reading a body mixes two things, finding out what a line is and letting it change what is known.
The clauses separate them.  `Clause.ofLines` is the first, without a state but for the meta block;
`Segmenting.after` is the second, a plain function without notes and without failure.  That reading
is the one after the other is proved here, once, and every law about bodies is then a statement
about a list of clauses.

## What is here

* `Clause.ofLines` — the clauses of a body.
* `Clause.tempo?`, `Clause.timeSignature?`, `Clause.staffLine?` — what a clause sets or adds.
* `Clause.problems` — what is reported of a clause.
* `Segmenting.after` — what is known of the body behind a clause.
* `Segmenting.foldlM_readLine_value`, `foldlM_readLine_reports` — reading lines is letting their
  clauses take effect, one after the other; it fails at nothing but a numeral that is too long.

What is reported depends on one thing besides the clause: a staff line in front of all measure
headers is reported as too early, and so the reports of a clause take a flag.
-/

set_option autoImplicit false

namespace TextScore

open Text Number

/-- One thing that the body says, with the number of its line. -/
inductive Clause
  /-- A line that is read as a directive. -/
  | directive (line : Nat) (text : List Char)
  /-- A measure header. -/
  | header (line : Nat) (header : MeasureHeader)
  /-- Any other line. -/
  | plain (line : Nat) (text : List Char)

/-- The number of the first measure. -/
def MeasureHeader.firstNumber (h : MeasureHeader) : Nat := digitsValue h.first

/-- The number of the last measure as it is written; it is the first one if none is written. -/
def MeasureHeader.lastNumber (h : MeasureHeader) : Nat := (h.last?.getD h.first |> digitsValue)

namespace Clause

/-! ## Reading clauses

The recursion is that of reading a line: behind a header stands a line again. -/

/-- The clauses of a text without blanks around it.  Behind a measure header on its line there is
no open meta block. -/
def ofText (line : Nat) (inMeta : Bool) (text : List Char) : List Clause :=
  if inMeta || isDirective text then [directive line text]
  else
    match _h : MeasureHeader.read? text with
    | some h =>
      header line h ::
        if (trim h.rest).isEmpty then [] else ofText line false (trim h.rest)
    | none => [plain line text]
termination_by text.length
decreasing_by
  have := MeasureHeader.read?_length _h
  have := trim_length_le h.rest
  omega

/-- The clauses of a line; a blank one has none. -/
def ofLine (inMeta : Bool) (l : Nat × List Char) : List Clause :=
  if (trim l.2).isEmpty then [] else ofText l.1 inMeta (trim l.2)

/-- Whether a meta block is open behind a clause. -/
def metaAfter (inMeta : Bool) : Clause → Bool
  | directive _ text => if inMeta then !MetaBlock.closes text else MetaBlock.opens text
  | _ => inMeta

/-- The clauses of some lines. -/
def ofLines (inMeta : Bool) : List (Nat × List Char) → List Clause
  | [] => []
  | l :: ls => ofLine inMeta l ++ ofLines ((ofLine inMeta l).foldl metaAfter inMeta) ls

/-! ## What a clause says

What a directive sets is left out if it is not positive, and reported.  Both are said here of the
clause alone. -/

/-- The clause is a measure header. -/
def isHeader : Clause → Bool
  | header .. => true
  | _ => false

/-- The tempo that a clause sets: the one of a directive, if it is positive. -/
def tempo? : Clause → Option Float
  | directive _ text => (findTempo? text).bind fun t ↦ if t.value > 0 then some t.value else none
  | _ => none

/-- The time signature that a clause sets: the one of a directive, if both numbers are positive. -/
def timeSignature? : Clause → Option TimeSignature
  | directive _ text => (findTimeSignature? text).bind fun f ↦
    if 0 < digitsValue f.1 ∧ 0 < digitsValue f.2 then some ⟨digitsValue f.1, digitsValue f.2⟩
    else none
  | _ => none

/-- The staff line that a clause is, with its number. -/
def staffLine? : Clause → Option (Nat × List Char)
  | plain line text =>
    if isDeclarationLine text then none
    else (Assignment.read? text).map fun _ ↦ (line, text)
  | _ => none

/-- The report of a tempo that is not positive. -/
def tempoProblems (line : Nat) (text : List Char) : List (Nat × Problem) :=
  match findTempo? text with
  | some t => if t.value > 0 then [] else [(line, .ignoredTempo (String.ofList t.text))]
  | none => []

/-- The report of a time signature with a zero in it. -/
def timeSignatureProblems (line : Nat) (text : List Char) : List (Nat × Problem) :=
  match findTimeSignature? text with
  | some (n, d) =>
    if 0 < digitsValue n ∧ 0 < digitsValue d then []
    else [(line, .ignoredTimeSignature (digitsValue n) (digitsValue d))]
  | none => []

/-- The problems that are reported of a clause; `opened` says whether a measure header stands before
it. -/
def problems (opened : Bool) : Clause → List (Nat × Problem)
  | directive line text => tempoProblems line text ++ timeSignatureProblems line text
  | header line h =>
    if h.lastNumber < h.firstNumber then
      [(line, .reversedRange h.firstNumber h.lastNumber)]
    else []
  | plain line text =>
    if isDeclarationLine text then []
    else if (Assignment.read? text).isNone then
      [(line, .unrecognisedLine (String.ofList text))]
    else if opened then [] else [(line, .staffLineTooEarly)]

/-- The problems that are reported of some clauses. -/
def allProblems (opened : Bool) : List Clause → List (Nat × Problem)
  | [] => []
  | c :: cs => c.problems opened ++ allProblems (opened || c.isHeader) cs

/-- No number of the clause has too many digits to be read. -/
def isReadable : Clause → Bool
  | directive _ text => (findTimeSignature? text).all fun f ↦
    f.1.length ≤ maxDigits && f.2.length ≤ maxDigits
  | header _ h => h.first.length ≤ maxDigits && h.last?.all (·.length ≤ maxDigits)
  | plain .. => true

theorem allProblems_append (opened : Bool) (cs ds : List Clause) :
    allProblems opened (cs ++ ds) =
      allProblems opened cs ++ allProblems (opened || cs.any isHeader) ds := by
  induction cs generalizing opened with
  | nil => simp [allProblems]
  | cons c cs ih =>
    rw [List.cons_append, allProblems, allProblems, ih, List.append_assoc, List.any_cons,
      Bool.or_assoc]

/-- The clauses of lines behind others depend on whether a meta block is open behind those. -/
theorem ofLines_append (inMeta : Bool) (ls ms : List (Nat × List Char)) :
    ofLines inMeta (ls ++ ms) =
      ofLines inMeta ls ++ ofLines ((ofLines inMeta ls).foldl metaAfter inMeta) ms := by
  induction ls generalizing inMeta with
  | nil => rfl
  | cons l ls ih =>
    rw [List.cons_append, ofLines, ofLines, ih, List.append_assoc, List.foldl_append]

end Clause

/-! ## Effects of clauses

The functions of the reading are matched with `after`, one by one; each comes to that, and to the
reports above, unless a numeral of the clause is too long. -/

theorem readNat_value {ds : List Char} (h : ds.length ≤ maxDigits) :
    readNat ds = .ok (digitsValue ds) := by
  rw [readNat, if_neg (by omega)]

theorem readNat_error {ds : List Char} (h : ¬ds.length ≤ maxDigits) :
    readNat ds = .error .numeralTooLong := by
  rw [readNat, if_pos (by omega)]

namespace Segmenting

/-- What is known of the body behind a clause. -/
def after (g : Segmenting) : Clause → Segmenting
  | .directive line text =>
    ({ g with
        inMeta := g.inMetaAfter text
        tempo := (Clause.directive line text).tempo?.getD g.tempo
        timeSignature :=
          (Clause.directive line text).timeSignature?.getD g.timeSignature }.setNames
      text).updateBlock
  | .header _ h =>
    { g with
      closed := g.blocks
      current? := some {
        first := h.firstNumber
        last := (max h.firstNumber h.lastNumber : Nat)
        tempo := g.tempo
        timeSignature := g.timeSignature } }
  | .plain line text =>
    { g with
      current? := g.current?.map fun b ↦
        { b with lines := b.lines ++ (Clause.plain line text).staffLine?.toList } }

/-- A clause takes effect. -/
def perform (g : Segmenting) : Clause → Pass Segmenting
  | .directive line text => applyDirective line { g with inMeta := g.inMetaAfter text } text
  | .header line h => openBlock line g h
  | .plain line text => addLine line g text

variable (line : Nat) (g : Segmenting) (text : List Char)

theorem setTempo_value :
    (setTempo line g text).value =
      .ok { g with tempo := (Clause.directive line text).tempo?.getD g.tempo } := by
  rw [setTempo, Clause.tempo?]
  cases findTempo? text with
  | none => rfl
  | some t =>
    by_cases h : t.value > 0
    · simp [h]
    · simp only [h, Option.bind_some, if_false]
      rfl

theorem setTempo_reports :
    (setTempo line g text).reports = Clause.tempoProblems line text := by
  rw [setTempo, Clause.tempoProblems]
  cases findTempo? text with
  | none => rfl
  | some t =>
    by_cases h : t.value > 0
    · simp [h]
    · simp only [h, if_false]
      rfl

theorem setTimeSignature_value :
    (setTimeSignature line g text).value =
      if (Clause.directive line text).isReadable then
        .ok { g with
          timeSignature := (Clause.directive line text).timeSignature?.getD g.timeSignature }
      else .error .numeralTooLong := by
  rw [setTimeSignature, Clause.isReadable, Clause.timeSignature?]
  rcases findTimeSignature? text with _ | ⟨n, d⟩
  · rfl
  by_cases hn : n.length ≤ maxDigits
  · by_cases hd : d.length ≤ maxDigits
    · by_cases hpos : 0 < digitsValue n ∧ 0 < digitsValue d
      · simp [hn, hd, readNat_value hn, readNat_value hd, Noted.ofExcept, hpos]
      · simp only [readNat_value hn, readNat_value hd, Noted.ofExcept, pure_bind, hpos, if_false]
        simp [hn, hd, hpos]
        rfl
    · simp [hn, hd, readNat_value hn, readNat_error hd, Noted.ofExcept]
      rfl
  · simp [hn, readNat_error hn, Noted.ofExcept]
    rfl

theorem setTimeSignature_reports (h : (Clause.directive line text).isReadable = true) :
    (setTimeSignature line g text).reports = Clause.timeSignatureProblems line text := by
  rw [Clause.isReadable] at h
  rw [setTimeSignature, Clause.timeSignatureProblems]
  rcases hf : findTimeSignature? text with _ | ⟨n, d⟩
  · rfl
  rw [hf, Option.all_some, Bool.and_eq_true, decide_eq_true_eq, decide_eq_true_eq] at h
  simp only [readNat_value h.1, readNat_value h.2, Noted.ofExcept, pure_bind]
  by_cases hpos : 0 < digitsValue n ∧ 0 < digitsValue d
  · rw [if_pos hpos, if_pos hpos]
    rfl
  · rw [if_neg hpos, if_neg hpos]
    rfl

theorem applyDirective_value :
    (applyDirective line g text).value =
      if (Clause.directive line text).isReadable then
        .ok (({ g with
          tempo := (Clause.directive line text).tempo?.getD g.tempo
          timeSignature := (Clause.directive line text).timeSignature?.getD
            g.timeSignature }.setNames text).updateBlock)
      else .error .numeralTooLong := by
  rw [applyDirective, Noted.value_bind fun g ↦
    .bind (appends_setTimeSignature line g text) fun _ ↦ .pure _, setTempo_value, ok_bind,
    Noted.value_bind fun _ ↦ .pure _, setTimeSignature_value]
  split
  · rfl
  · rfl

theorem applyDirective_reports (h : (Clause.directive line text).isReadable = true) :
    (applyDirective line g text).reports =
      Clause.tempoProblems line text ++ Clause.timeSignatureProblems line text := by
  rw [applyDirective, Pass.reports_bind (fun g ↦
      .bind (appends_setTimeSignature line g text) fun _ ↦ .pure _) (setTempo_value line g text),
    Pass.reports_bind (fun _ ↦ .pure _)
      ((setTimeSignature_value line _ text).trans (if_pos h)),
    setTempo_reports, setTimeSignature_reports line _ text h, Pass.reports_pure, List.append_nil]

variable (h : MeasureHeader)

theorem openRange_value (first last : Nat) :
    (openRange line g first last).value = .ok { g with
      closed := g.blocks
      current? := some {
        first
        last := (max first last : Nat)
        tempo := g.tempo
        timeSignature := g.timeSignature } } := by
  rw [openRange]
  dsimp only
  split
  · rfl
  · rfl

theorem openRange_reports (first last : Nat) :
    (openRange line g first last).reports =
      if last < first then [(line, .reversedRange first last)] else [] := by
  rw [openRange]
  dsimp only
  split
  · rfl
  · rfl

theorem openBlock_value :
    (openBlock line g h).value =
      if (Clause.header line h).isReadable then .ok (g.after (.header line h))
      else .error .numeralTooLong := by
  rw [openBlock_eq, Noted.value_bind fun first ↦ .bind (.ofExcept _) fun last ↦
    appends_openRange line g first last, Noted.value_ofExcept, Clause.isReadable]
  by_cases hfirst : h.first.length ≤ maxDigits
  · rw [readNat_value hfirst, ok_bind, Noted.value_bind fun last ↦
      appends_openRange line g _ last, Noted.value_ofExcept, after, MeasureHeader.firstNumber,
      MeasureHeader.lastNumber]
    cases h.last? with
    | none => simp [hfirst, openRange_value]
    | some ds =>
      by_cases hlast : ds.length ≤ maxDigits
      · simp [hfirst, hlast, readNat_value hlast, openRange_value]
      · simp [hlast, readNat_error hlast]
  · simp [hfirst, readNat_error hfirst]

theorem openBlock_reports (hread : (Clause.header line h).isReadable = true) :
    (openBlock line g h).reports = (Clause.header line h).problems g.current?.isSome := by
  rw [Clause.isReadable, Bool.and_eq_true, decide_eq_true_eq] at hread
  have hfirst : (Noted.ofExcept (readNat h.first) : Pass Nat).value = .ok h.firstNumber := by
    rw [Noted.value_ofExcept, readNat_value hread.1, MeasureHeader.firstNumber]
  have hlast : (Noted.ofExcept (h.last?.elim (.ok h.firstNumber) readNat) : Pass Nat).value =
      .ok h.lastNumber := by
    rw [Noted.value_ofExcept, MeasureHeader.lastNumber]
    cases hl : h.last? with
    | none => rfl
    | some ds =>
      have hds := hread.2
      rw [hl, Option.all_some, decide_eq_true_eq] at hds
      exact readNat_value hds
  rw [openBlock_eq, Pass.reports_bind (fun first ↦ .bind (.ofExcept _) fun last ↦
    appends_openRange line g first last) hfirst, Pass.reports_bind (fun last ↦
    appends_openRange line g _ last) hlast, openRange_reports, Pass.reports_ofExcept,
    Pass.reports_ofExcept, List.nil_append, List.nil_append, Clause.problems]

theorem addLine_value : (addLine line g text).value = .ok (g.after (.plain line text)) := by
  rw [addLine, after, Clause.staffLine?]
  by_cases hd : isDeclarationLine text = true
  · simp [hd]
  rw [if_neg hd, if_neg hd]
  cases hg : g.current? with
  | none =>
    have hsame : { g with current? := none } = g := by rw [← hg]
    rw [Option.map_none, hsame]
    cases Assignment.read? text <;> rfl
  | some b =>
    cases Assignment.read? text with
    | none =>
      have hsame : { g with current? := some { b with lines := b.lines ++ [] } } = g := by
        rw [List.append_nil, ← hg]
      exact congrArg Except.ok hsame.symm
    | some s => rfl

theorem addLine_reports :
    (addLine line g text).reports = (Clause.plain line text).problems g.current?.isSome := by
  rw [addLine, Clause.problems]
  by_cases hd : isDeclarationLine text = true
  · rw [if_pos hd, if_pos hd]
    rfl
  rw [if_neg hd, if_neg hd]
  cases g.current? with
  | none => cases Assignment.read? text <;> rfl
  | some b => cases Assignment.read? text <;> rfl

/-- A clause takes effect unless it has a numeral that is too long. -/
theorem perform_value (c : Clause) :
    (perform g c).value =
      if c.isReadable then .ok (g.after c) else .error .numeralTooLong := by
  cases c with
  | directive line text => rw [perform, applyDirective_value, after]
  | header line h => rw [perform, openBlock_value]
  | plain line text => rw [perform, addLine_value, Clause.isReadable, if_pos rfl]

/-! ## Effects of lines

A header takes effect before what stands behind it on its line is read, and that is the one place
where the order of reading and of taking effect has to be exchanged. -/

/-- Some clauses take effect, one after the other. -/
def run (g : Segmenting) (cs : List Clause) : Except Fault Segmenting :=
  if cs.all Clause.isReadable then .ok (cs.foldl after g) else .error .numeralTooLong

theorem run_cons (c : Clause) (cs : List Clause) :
    run g (c :: cs) = (perform g c).value >>= fun g ↦ run g cs := by
  rw [run, perform_value, List.all_cons, List.foldl_cons]
  by_cases h : c.isReadable = true
  · rw [h, Bool.true_and, if_pos rfl, ok_bind, run]
  · rw [Bool.not_eq_true] at h
    rw [h, Bool.false_and, if_neg Bool.false_ne_true]
    rfl

theorem run_append (cs ds : List Clause) :
    run g (cs ++ ds) = run g cs >>= fun g ↦ run g ds := by
  rw [run, run, List.all_append, List.foldl_append]
  by_cases h : cs.all Clause.isReadable = true
  · rw [h, Bool.true_and, if_pos rfl, ok_bind, run]
  · rw [Bool.not_eq_true] at h
    rw [h, Bool.false_and, if_neg Bool.false_ne_true]
    rfl

theorem run_singleton (c : Clause) : run g [c] = (perform g c).value := by
  rw [perform_value, run, List.all_cons, List.all_nil, Bool.and_true]
  rfl

theorem run_ok {g g' : Segmenting} {cs : List Clause} (h : run g cs = .ok g') :
    cs.all Clause.isReadable = true ∧ g' = cs.foldl after g := by
  rw [run] at h
  split at h
  case isTrue hread => exact ⟨hread, (Except.ok.inj h).symm⟩
  case isFalse => cases h

@[simp] theorem inMeta_after (c : Clause) : (g.after c).inMeta = c.metaAfter g.inMeta := by
  cases c <;> rfl

theorem inMeta_foldl_after (cs : List Clause) :
    (cs.foldl after g).inMeta = cs.foldl Clause.metaAfter g.inMeta := by
  induction cs generalizing g with
  | nil => rfl
  | cons c cs ih => rw [List.foldl_cons, ih, inMeta_after, List.foldl_cons]

theorem isSome_current?_after (c : Clause) :
    (g.after c).current?.isSome = (g.current?.isSome || c.isHeader) := by
  cases c with
  | directive line text => simp [after, updateBlock, setNames, Clause.isHeader]
  | header line h => simp [after, Clause.isHeader]
  | plain line text => simp [after, Clause.isHeader]

/-- A measure header comes to be known of the body before what stands behind it. -/
theorem step_header {header : MeasureHeader} (hdir : g.readsDirective text = false)
    (hread : MeasureHeader.read? text = some header) :
    step line g text = openBlock line g header >>= fun g ↦
      if (trim header.rest).isEmpty then pure g else step line g (trim header.rest) := by
  rw [step, if_neg (by rw [hdir]; exact Bool.false_ne_true)]
  split
  case h_1 header' hread' =>
    obtain rfl := Option.some.inj (hread.symm.trans hread')
    rfl
  case h_2 hread' => cases hread.symm.trans hread'

theorem appends_stepRest (rest : List Char) (g : Segmenting) :
    (if rest.isEmpty then pure g else step line g rest : Pass Segmenting).Appends := by
  split
  · exact .pure _
  · exact appends_step _ _ _

theorem step_plain (hdir : g.readsDirective text = false)
    (hread : MeasureHeader.read? text = none) : step line g text = addLine line g text := by
  rw [step, if_neg (by rw [hdir]; exact Bool.false_ne_true)]
  split
  case h_1 header' hread' => cases hread.symm.trans hread'
  case h_2 => rfl

end Segmenting

namespace Clause

variable {line : Nat} {g : Segmenting} {text : List Char}

theorem ofText_directive (hdir : g.readsDirective text = true) :
    ofText line g.inMeta text = [directive line text] := by
  rw [Segmenting.readsDirective] at hdir
  rw [ofText, if_pos hdir]

theorem ofText_header {h : MeasureHeader} (hdir : g.readsDirective text = false)
    (hread : MeasureHeader.read? text = some h) :
    ofText line g.inMeta text =
      header line h ::
        if (trim h.rest).isEmpty then [] else ofText line g.inMeta (trim h.rest) := by
  rw [Segmenting.readsDirective] at hdir
  rw [ofText, if_neg (by rw [hdir]; exact Bool.false_ne_true)]
  rw [Bool.or_eq_false_iff] at hdir
  rw [hdir.1]
  split
  case h_1 h' hread' =>
    obtain rfl := Option.some.inj (hread.symm.trans hread')
    rfl
  case h_2 hread' => cases hread.symm.trans hread'

theorem ofText_plain (hdir : g.readsDirective text = false)
    (hread : MeasureHeader.read? text = none) : ofText line g.inMeta text = [plain line text] := by
  rw [Segmenting.readsDirective] at hdir
  rw [ofText, if_neg (by rw [hdir]; exact Bool.false_ne_true)]
  split
  case h_1 h' hread' => cases hread.symm.trans hread'
  case h_2 => rfl

end Clause

namespace Segmenting

/-- Reading a text is letting its clauses take effect. -/
theorem step_value (line : Nat) (g : Segmenting) (text : List Char) :
    (step line g text).value = run g (Clause.ofText line g.inMeta text) := by
  induction g, text using step.induct with
  | case1 g text hdir =>
    rw [Clause.ofText_directive hdir, run_singleton, step, if_pos hdir, perform]
  | case2 g text hdir header hread ih =>
    rw [Bool.not_eq_true] at hdir
    rw [step_header line g text hdir hread, Clause.ofText_header hdir hread, run_cons,
      Noted.value_bind (appends_stepRest line _), openBlock_value, perform, openBlock_value]
    split
    case isTrue =>
      rw [ok_bind, ok_bind]
      split
      case isTrue => rfl
      case isFalse => exact ih _
    case isFalse => rfl
  | case3 g text hdir hread =>
    rw [Bool.not_eq_true] at hdir
    rw [step_plain line g text hdir hread, Clause.ofText_plain hdir hread, run_singleton, perform]

/-- What is reported of a text is reported of its clauses. -/
theorem step_reports {line : Nat} {g : Segmenting} {text : List Char}
    (hread : (Clause.ofText line g.inMeta text).all Clause.isReadable = true) :
    (step line g text).reports =
      Clause.allProblems g.current?.isSome (Clause.ofText line g.inMeta text) := by
  -- what is behind a measure header is read as a line of its own
  induction g, text using step.induct with
  | case1 g text hdir =>
    rw [Clause.ofText_directive hdir] at hread ⊢
    rw [List.all_cons, List.all_nil, Bool.and_true] at hread
    rw [step, if_pos hdir, applyDirective_reports line _ text hread, Clause.allProblems,
      Clause.allProblems, List.append_nil, Clause.problems]
  | case2 g text hdir header hhead ih =>
    rw [Bool.not_eq_true] at hdir
    rw [Clause.ofText_header hdir hhead] at hread ⊢
    rw [List.all_cons, Bool.and_eq_true] at hread
    have hopen := (openBlock_value line g header).trans (if_pos hread.1)
    rw [step_header line g text hdir hhead, Pass.reports_bind (appends_stepRest line _) hopen,
      openBlock_reports line g header hread.1, Clause.allProblems]
    refine congrArg _ ?_
    rw [← isSome_current?_after]
    by_cases hrest : (trim header.rest).isEmpty = true
    · rw [if_pos hrest, if_pos hrest]
      rfl
    · rw [if_neg hrest] at hread
      rw [if_neg hrest, if_neg hrest]
      exact ih (g.after (.header line header)) hread.2
  | case3 g text hdir hhead =>
    rw [Bool.not_eq_true] at hdir
    rw [step_plain line g text hdir hhead, Clause.ofText_plain hdir hhead, addLine_reports,
      Clause.allProblems, Clause.allProblems, List.append_nil]

theorem readLine_value (g : Segmenting) (l : Nat × List Char) :
    (readLine g l).value = run g (Clause.ofLine g.inMeta l) := by
  rw [readLine, Clause.ofLine]
  by_cases h : (trim l.2).isEmpty = true
  · rw [if_pos h, if_pos h]
    rfl
  · rw [if_neg h, if_neg h, step_value]

theorem readLine_reports {g : Segmenting} {l : Nat × List Char}
    (hread : (Clause.ofLine g.inMeta l).all Clause.isReadable = true) :
    (readLine g l).reports =
      Clause.allProblems g.current?.isSome (Clause.ofLine g.inMeta l) := by
  rw [Clause.ofLine] at hread ⊢
  rw [readLine]
  by_cases h : (trim l.2).isEmpty = true
  · rw [if_pos h, if_pos h]
    rfl
  · rw [if_neg h] at hread
    rw [if_neg h, if_neg h, step_reports hread]

/-- Reading lines is letting their clauses take effect. -/
theorem foldlM_readLine_value (g : Segmenting) (ls : List (Nat × List Char)) :
    (ls.foldlM readLine g).value = run g (Clause.ofLines g.inMeta ls) := by
  induction ls generalizing g with
  | nil => rfl
  | cons l ls ih =>
    rw [List.foldlM_cons, Noted.value_bind fun g ↦ .foldlM appends_readLine ls g, readLine_value,
      Clause.ofLines, run_append]
    cases hl : run g (Clause.ofLine g.inMeta l) with
    | error f => rfl
    | ok g₁ =>
      obtain ⟨-, rfl⟩ := run_ok hl
      rw [ok_bind, ok_bind, ih, inMeta_foldl_after]

theorem isSome_current?_foldl_after (g : Segmenting) (cs : List Clause) :
    (cs.foldl after g).current?.isSome = (g.current?.isSome || cs.any Clause.isHeader) := by
  induction cs generalizing g with
  | nil => simp
  | cons c cs ih =>
    rw [List.foldl_cons, ih, isSome_current?_after, List.any_cons, Bool.or_assoc]

/-- What is reported of lines is reported of their clauses. -/
theorem foldlM_readLine_reports {g : Segmenting} {ls : List (Nat × List Char)}
    (hread : (Clause.ofLines g.inMeta ls).all Clause.isReadable = true) :
    (ls.foldlM readLine g).reports =
      Clause.allProblems g.current?.isSome (Clause.ofLines g.inMeta ls) := by
  induction ls generalizing g with
  | nil => rfl
  | cons l ls ih =>
    rw [Clause.ofLines] at hread ⊢
    rw [List.all_append, Bool.and_eq_true] at hread
    have hl := (readLine_value g l).trans (if_pos hread.1)
    rw [← inMeta_foldl_after] at hread ⊢
    rw [Pass.reports_foldlM_cons appends_readLine hl, readLine_reports hread.1, ih hread.2,
      Clause.allProblems_append, isSome_current?_foldl_after]

end Segmenting

end TextScore
