import TextScore.Proofs.Measure.LastActive
import TextScore.Proofs.Reports
import TextScore.Proofs.Score.Stages

/-!
# Reports of undeclared instruments

An instrument is reported as undeclared when it is to play and nobody has declared it.  No other
stage of a compilation has such a report, and no other problem has such a message.

The first of these is said by a condition on passes (`Pass.Quiet`) that goes through chains of
steps, so that every step of the other stages has a short lemma.  The second is about texts: the
message for an id is the id with words around it, and messages of other kinds have other words.
Messages quote what the user wrote, which may be anything; but they begin with other letters, and
the one that begins alike has another end.

## What is here

* `Problem.undeclared?`, `Journal.undeclared` — the ids that are reported.
* `Pass.Quiet` — nothing is reported as undeclared by a pass.
* `Draft.Stages` — what the stages of a compilation yield and what they note.
* `Draft.Stages.undeclared` — the ids are those reported while the blocks are played.
* `Problem.eq_of_message` — the message of an undeclared instrument is that of no other problem.
* `Journal.diagnostics_undeclared` — an id that is reported once is one diagnostic.
-/

set_option autoImplicit false

namespace TextScore

variable {α ν : Type}

/-- The id that is reported as undeclared. -/
def Problem.undeclared? : Problem → Option String
  | undeclaredInstrument id => some id
  | _ => none

/-- The id that is reported as undeclared by an entry of a journal. -/
def Entry.undeclared? : Entry → Option String
  | problem _ p => p.undeclared?
  | _ => none

/-- The ids that are reported as undeclared, in order. -/
def Journal.undeclared (rs : List (Nat × Problem)) : List String :=
  rs.filterMap fun r ↦ r.2.undeclared?

theorem Journal.undeclared_cons (r : Nat × Problem) (rs : List (Nat × Problem)) :
    undeclared (r :: rs) = r.2.undeclared?.toList ++ undeclared rs := by
  rw [undeclared, List.filterMap_cons]
  cases r.2.undeclared? <;> rfl

theorem Journal.undeclared_append (rs ss : List (Nat × Problem)) :
    undeclared (rs ++ ss) = undeclared rs ++ undeclared ss := List.filterMap_append

/-- Nothing is reported as undeclared by a pass. -/
def Pass.Quiet (x : Pass α) : Prop := Noted.Emits (fun e ↦ e.undeclared? = none) x

/-- Nothing is reported as undeclared on the text of a line. -/
def Noted.Quiet (x : Noted Problem α) : Prop := Noted.Emits (fun p ↦ p.undeclared? = none) x

theorem Pass.Quiet.undeclared {x : Pass α} (h : x.Quiet) : Journal.undeclared x.reports = [] := by
  rw [Journal.undeclared, List.filterMap_eq_nil_iff]
  rintro ⟨line, p⟩ hp
  exact h.notes _ (Journal.mem_reports.mp hp)

theorem Noted.Quiet.atLine {x : Noted Problem α} (h : x.Quiet) (line : Nat) :
    (TextScore.atLine line x).Quiet := by
  have hentry (p : Problem) (hp : p.undeclared? = none) :
      (Entry.problem line p).undeclared? = none := hp
  exact .mapNotes hentry h

/-! ## The declarations

Declaring reports names and transpositions that cannot be read. -/

namespace Collecting

theorem quiet_declare (line : Nat) (c : Collecting) (text : List Char) :
    (declare line c text).Quiet := by
  rw [declare]
  cases Declaration.read? text with
  | none => exact .pure _
  | some d =>
    have hsemitones : d.semitones.Quiet := by
      rw [Declaration.semitones]
      split
      · exact .pure _
      · split
        · exact .ofExcept _
        · exact .bind (.note rfl) fun _ ↦ .pure _
    have hinstrument : d.instrument.Quiet := .bind hsemitones fun _ ↦ .pure _
    refine .bind (hinstrument.atLine line) fun i ↦ ?_
    dsimp only
    split
    · exact .bind (.note rfl) fun _ ↦ .bind (.note rfl) fun _ ↦ .pure _
    · exact .bind (.note rfl) fun _ ↦ .pure _

theorem quiet_declareAll (line : Nat) (c : Collecting) (text : List Char) :
    (declareAll line c text).Quiet :=
  .bind (.foldlM (quiet_declare line) _ _) fun _ ↦ .pure _

theorem quiet_readLine (c : Collecting) (l : Nat × List Char) : (readLine c l).Quiet := by
  rw [readLine, step]
  dsimp only
  split
  · exact .pure _
  split
  · exact .pure _
  split
  · exact .pure _
  split
  · exact .bind (.note rfl) fun _ ↦ quiet_declareAll _ _ _
  split
  · exact quiet_declareAll _ _ _
  · exact .pure _

end Collecting

theorem Ensemble.quiet_collect (defaults : Defaults) (ls : List (Nat × List Char)) :
    (collect defaults ls).Quiet :=
  .bind (.foldlM Collecting.quiet_readLine _ _) fun _ ↦ .pure _

/-! ## The body

The reports of the body are known clause by clause. -/

theorem Clause.undeclared_problems (opened : Bool) (c : Clause) :
    Journal.undeclared (c.problems opened) = [] := by
  cases c with
  | directive line text =>
    rw [problems, Journal.undeclared_append, tempoProblems, timeSignatureProblems]
    split <;> split <;> (try split) <;> (try split) <;> rfl
  | header line h =>
    rw [problems]
    split <;> rfl
  | plain line text =>
    rw [problems]
    split
    · rfl
    split
    · rfl
    split <;> rfl

theorem Clause.undeclared_allProblems (opened : Bool) (cs : List Clause) :
    Journal.undeclared (allProblems opened cs) = [] := by
  induction cs generalizing opened with
  | nil => rfl
  | cons c cs ih => rw [allProblems, Journal.undeclared_append, undeclared_problems, ih]; rfl

/-! ## The tokens

What is reported in playing a token is about its text. -/

namespace Playing

theorem quiet_takeDuration (m : Meter) (p : Playing) (code? : Option String) :
    (p.takeDuration m code?).Quiet := by
  rw [takeDuration]
  split
  · exact .bind (.note rfl) fun _ ↦ .pure _
  · exact .pure _

theorem quiet_emit (i : Instrument) (duration : Float) (p : Playing) (text : String) :
    (p.emit i duration text).Quiet := by
  have hpitch : (p.takePitch text).Quiet := by
    rw [takePitch]
    refine .bind (.ofExcept _) ?_
    rintro ⟨st, pitch?⟩
    cases pitch? with
    | some pitch => exact .pure _
    | none =>
      dsimp only
      split
      · exact .bind (.fail _) fun _ ↦ .bind (.note rfl) fun _ ↦ .pure _
      · exact .bind (.note rfl) fun _ ↦ .pure _
  rw [emit]
  exact .bind hpitch fun _ ↦ .bind (.ofExcept _) fun _ ↦ .pure _

theorem quiet_step (m : Meter) (i : Instrument) (p : Playing) (t : Token) :
    (step m i p t).Quiet := by
  cases h : t.sound? with
  | some s =>
    rw [step_of_sound h]
    exact .bind (p.quiet_takeDuration m _) fun _ ↦
      .bind (.foldlM (quiet_emit i _) _ _) fun _ ↦ .pure _
  | none =>
    cases t with
    | grid code =>
      rw [step]
      split
      · exact .bind (.note rfl) fun _ ↦ .pure _
      · exact .pure _
    | unknown text => exact .bind (.note rfl) fun _ ↦ .pure _
    | barline => exact .pure _
    | marking text => exact .pure _
    | rest code? => cases h
    | pitch text code? => cases h
    | chord pitches code? => cases h

end Playing

theorem Repeat.quiet_expand (s : List Char) : (expand s).Quiet := by
  have hcheck (g : Group) : g.check.Quiet := by
    rw [Group.check]
    refine .bind (.ofExcept _) fun n ↦ ?_
    split
    · exact .note rfl
    · exact .pure _
  induction s using expand.induct with
  | case1 s ps h =>
    rw [expand, dif_pos h]
    exact .pure _
  | case2 s ps h ih =>
    rw [expand, dif_neg h]
    exact .bind (.forM fun g _ ↦ hcheck g) fun _ ↦ ih

theorem Assembly.quiet_tokens (macros : Macro.Table) (line : Nat) (content : List Char) :
    (tokens macros line content).Quiet := by
  have hproblems : ∀ p ∈ (macros.expand content).2, p.undeclared? = none := by
    intro p hp
    rw [Macro.Table.expand] at hp
    obtain ⟨r, -, hr⟩ := List.mem_filterMap.mp hp
    rw [Macro.Table.problem?] at hr
    split at hr
    · cases hr; rfl
    split at hr
    · cases hr
    · cases hr; rfl
  rw [tokens_eq]
  revert hproblems
  rcases macros.expand content with ⟨text, problems⟩
  intro hproblems
  refine .bind (.forM fun p hp ↦ .note (hproblems p hp)) fun _ ↦ ?_
  exact .bind ((Repeat.quiet_expand text).atLine line) fun _ ↦ .pure _

/-! ## A whole compilation

What a compilation notes is what its stages note, one after the other. -/

namespace Draft

theorem quiet_ofTimeline (body : Body) (t : Timeline) : (ofTimeline body t).Quiet := by
  rw [ofTimeline]
  dsimp only
  split
  · exact .bind (.note rfl) fun _ ↦ .bind (.ofExcept _) fun _ ↦ .pure _
  · exact .bind (.ofExcept _) fun _ ↦ .pure _

/-- What the stages of a compilation yield, and what they note, one after the other. -/
structure Stages (defaults : Defaults) (text : List Char) (d : Draft) (e : Ensemble)
    (t : Timeline) : Prop where
  /-- The ensemble that is declared. -/
  collect : (Ensemble.collect defaults (prepare text).1).value = .ok e
  /-- The body. -/
  segment : (Body.segment defaults (prepare text).1).value = .ok d.body
  /-- The timeline. -/
  play : (Timeline.ofBlocks (prepare text).2 e d.body.blocks).value = .ok t
  /-- The notes in the order of time. -/
  events : d.events = t.assembly.events.toList.mergeSort NoteEvent.notAfter
  /-- The ensemble in the end. -/
  ensemble : d.ensemble = t.assembly.ensemble
  /-- The groups as they are shown. -/
  groups : t.assembly.ensemble.groups.mapM (layout t.assembly.ensemble) = .ok d.groups
  /-- What is noted. -/
  notes : (ofText defaults text).notes =
    (noteMacros (Comment.strip text)).notes ++
      ((Ensemble.collect defaults (prepare text).1).notes ++
        ((Body.segment defaults (prepare text).1).notes ++
          ((Timeline.ofBlocks (prepare text).2 e d.body.blocks).notes ++
            (ofTimeline d.body t).notes)))

/-- A text that compiles has gone through all stages. -/
theorem stages_ofText {defaults : Defaults} {text : List Char} {d : Draft}
    (h : (ofText defaults text).value = .ok d) : ∃ e t, Stages defaults text d e t := by
  obtain ⟨e, t, he, hbody, ht, hevents, hensemble⟩ := ofText_ok h
  have htimeline (e : Ensemble) (body : Body) : (do
      ofTimeline body (← Timeline.ofBlocks (prepare text).2 e body.blocks)).Appends :=
    .bind (Timeline.appends_ofBlocks _ _ _) fun _ ↦ appends_ofTimeline _ _
  have hsegment (e : Ensemble) : (do
      let body ← Body.segment defaults (prepare text).1
      ofTimeline body (← Timeline.ofBlocks (prepare text).2 e body.blocks)).Appends :=
    .bind (Body.appends_segment _ _) (htimeline e)
  have hmacros : (noteMacros (Comment.strip text)).value = .ok () := Noted.value_forM_note _ _
  refine ⟨e, t, he, hbody, ht, hevents, hensemble, ?_, ?_⟩
  · rw [ofText_value, timelineOf, he, ok_bind, hbody, ok_bind, ht, ok_bind] at h
    have hlast : (ofTimeline d.body t).value = .ok d := h
    rw [ofTimeline_value] at hlast
    obtain ⟨groups, hgroups, hd⟩ := map_eq_ok hlast
    rw [hgroups, ← hd]
  · rw [ofText, Noted.notes_bind (fun _ ↦ .bind (Ensemble.appends_collect _ _) hsegment) hmacros,
      Noted.notes_bind hsegment he, Noted.notes_bind (htimeline e) hbody,
      Noted.notes_bind (appends_ofTimeline d.body) ht]

/-- The ids that a compilation reports as undeclared are those reported when the blocks are
played. -/
theorem Stages.undeclared {defaults : Defaults} {text : List Char} {d : Draft} {e : Ensemble}
    {t : Timeline} (h : Stages defaults text d e t) :
    Journal.undeclared (ofText defaults text).reports =
      Journal.undeclared (Timeline.ofBlocks (prepare text).2 e d.body.blocks).reports := by
  have hmacros : (noteMacros (Comment.strip text)).Quiet := .forM fun _ _ ↦ .note rfl
  have hsegment : (Body.segment defaults (prepare text).1).reports = _ :=
    Body.segment_reports (Body.isReadable_of_segment h.segment)
  rw [Pass.reports, h.notes]
  simp only [Journal.reports_append, Journal.undeclared_append]
  have hfirst := hmacros.undeclared
  have hcollect := (Ensemble.quiet_collect defaults (prepare text).1).undeclared
  have hlast := (quiet_ofTimeline d.body t).undeclared
  rw [Pass.reports] at hfirst hcollect hlast hsegment
  rw [hfirst, hcollect, hlast, hsegment, Clause.undeclared_allProblems, Pass.reports,
    List.nil_append, List.nil_append, List.nil_append, List.append_nil]

end Draft

/-! ## Messages

The message decides the problem, for this one kind of problems. -/

/-- No other problem has the message of an undeclared instrument. -/
theorem Problem.eq_of_message {p : Problem} {id : String}
    (h : p.message = (undeclaredInstrument id).message) : p = undeclaredInstrument id := by
  delta message at h
  cases p
  case undeclaredInstrument id' =>
    dsimp only at h
    rw [String.append_left_inj, String.append_right_inj] at h
    rw [h]
  case declaredAgain id' =>
    dsimp only at h
    have hlast := congrArg (fun s : String ↦ s.toList.getLast?) h
    simp only [String.toList_append, List.getLast?_append] at hlast
    exact absurd hlast (by simp)
  all_goals
    dsimp only at h
    have hthird := congrArg (fun s : String ↦ s.toList[2]?) h
    simp [String.toList_append] at hthird

/-- An id that is reported once as undeclared is one diagnostic. -/
theorem Journal.diagnostics_undeclared {j : Journal} {id : String} {line : Nat}
    (h : j.reports.filter (·.2 = .undeclaredInstrument id) =
      [(line, .undeclaredInstrument id)]) :
    j.diagnostics.toList.filter (·.message = (Problem.undeclaredInstrument id).message) =
      [.ofProblem line (.undeclaredInstrument id)] := by
  have hsame : j.reports.filter (·.2.message = (Problem.undeclaredInstrument id).message) =
      j.reports.filter (·.2 = .undeclaredInstrument id) := by
    refine List.filter_congr fun r _ ↦ decide_eq_decide.mpr ⟨Problem.eq_of_message, ?_⟩
    exact congrArg Problem.message
  rw [← Array.toList_filter, diagnostics_eq, filter_diagnosticsOnto, hsame, h, Array.filter_empty]
  show (Diagnostic.insert #[] (.ofProblem line (.undeclaredInstrument id))).toList = _
  rw [Diagnostic.insert, Array.any_empty, if_neg Bool.false_ne_true]
  rfl

end TextScore
