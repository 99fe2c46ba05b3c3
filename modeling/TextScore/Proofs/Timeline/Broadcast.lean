import TextScore.Proofs.Reports
import TextScore.Proofs.Score.Stages

/-!
# A staff line for several instruments

A staff line may name several instruments, which play the same one after the other.  It stands for
as many lines, one for each of them.  Played from one line, the text is put together and reported on
once; played from several lines, as often as there are lines; the score and what is said about it
are the same.

The reports are the difficulty.  The two journals are not equal, they are not even equally long: the
problems in the text of the line are reported once in the first and several times in the second, and
at other lines.  But every message that is in one is in the other, and that is what the writer of
the score reads.  So the comparison is up to line numbers and repetition, with `Pass.Alike`.

## What is here

* `Pass.Alike` — two passes come to the same and meet the same problems, wherever and however often.
* `Pass.Alike.again` — a pass may be run once more.
* `SetApart` — lines with some of them set apart, one line for each instrument.
* `Timeline.alike_setApart`, `Draft.broadcast_ofBody` — they are played alike.

`again` is the heart of it.  Making the tokens of a line is a computation without a state of its
own, so making them a second time yields the same and reports nothing new; and it may be put between
the turns of two instruments, because neither looks at what the other has noted.
-/

set_option autoImplicit false

namespace TextScore

open Text

variable {α β σ : Type}

/-! ## Passes that are alike

Both sides have to be passes that do not look at the journal before them, as everything in the
compiler is; without that, running a pass once more could change what comes after it. -/

namespace Pass

/-- The problems that a pass reports, without their lines. -/
def problems (x : Pass α) : List Problem := x.reports.map Prod.snd

theorem problems_bind {x : Pass α} {f : α → Pass β} (hf : ∀ a, (f a).Appends) :
    (x >>= f).problems = x.problems ++ match x.value with
      | .ok a => (f a).problems
      | .error _ => [] := by
  cases hx : x.value with
  | ok a => rw [problems, reports_bind hf hx, List.map_append]; rfl
  | error e => rw [problems, reports, Noted.notes, Noted.outcome_bind hf, hx, List.append_nil]; rfl

@[simp] theorem problems_atLine (line : Nat) (x : Noted Problem α) :
    (atLine line x).problems = x.notes.toList := by
  rw [problems, reports, atLine, Noted.notes_mapNotes, Journal.reports, Array.toList_map]
  induction x.notes.toList with
  | nil => rfl
  | cons p ps ih => exact congrArg (p :: ·) ih

/-- Two passes come to the same and meet the same problems, perhaps on other lines and more or less
often. -/
structure Alike (x y : Pass α) : Prop where
  /-- The first one does not look at the journal before. -/
  left : x.Appends
  /-- Nor does the second one. -/
  right : y.Appends
  /-- They come to the same. -/
  value : x.value = y.value
  /-- They meet the same problems. -/
  problems : ∀ p, p ∈ x.problems ↔ p ∈ y.problems

namespace Alike

variable {x y z : Pass α}

theorem refl (hx : x.Appends) : Alike x x := ⟨hx, hx, rfl, fun _ ↦ Iff.rfl⟩

theorem symm (h : Alike x y) : Alike y x :=
  ⟨h.right, h.left, h.value.symm, fun p ↦ (h.problems p).symm⟩

theorem trans (h : Alike x y) (h' : Alike y z) : Alike x z :=
  ⟨h.left, h'.right, h.value.trans h'.value, fun p ↦ (h.problems p).trans (h'.problems p)⟩

theorem bind {f g : α → Pass β} (h : Alike x y) (hfg : ∀ a, Alike (f a) (g a)) :
    Alike (x >>= f) (y >>= g) where
  left := .bind h.left fun a ↦ (hfg a).left
  right := .bind h.right fun a ↦ (hfg a).right
  value := by
    rw [Noted.value_bind fun a ↦ (hfg a).left, Noted.value_bind fun a ↦ (hfg a).right, h.value]
    exact congrArg _ (funext fun a ↦ (hfg a).value)
  problems p := by
    rw [problems_bind fun a ↦ (hfg a).left, problems_bind fun a ↦ (hfg a).right, List.mem_append,
      List.mem_append, h.problems, h.value]
    cases y.value with
    | ok a => exact or_congr_right ((hfg a).problems p)
    | error e => exact Iff.rfl

/-- What was run once may be run again for what follows. -/
theorem again {f : α → Pass σ} {g : α → σ → Pass β} (hx : x.Appends) (hf : ∀ a, (f a).Appends)
    (hg : ∀ a s, (g a s).Appends) :
    Alike (x >>= fun a ↦ f a >>= g a) ((x >>= f) >>= fun s ↦ x >>= fun a ↦ g a s) := by
  have hfg (a : α) : (f a >>= g a).Appends := .bind (hf a) (hg a)
  have hxg (s : σ) : (x >>= fun a ↦ g a s).Appends := .bind hx fun a ↦ hg a s
  refine ⟨.bind hx hfg, .bind (.bind hx hf) hxg, ?_, fun p ↦ ?_⟩
  · rw [Noted.value_bind hfg, Noted.value_bind hxg, Noted.value_bind hf]
    cases hv : x.value with
    | error e => rfl
    | ok a =>
      simp only [ok_bind, Noted.value_bind (hg a)]
      refine congrArg _ (funext fun s ↦ ?_)
      rw [Noted.value_bind fun a ↦ hg a s, hv, ok_bind]
  -- that problems are met twice does not matter, as they are compared as sets
  · rw [problems_bind hfg, problems_bind hxg, problems_bind hf, Noted.value_bind hf]
    cases hv : x.value with
    | error e => simp
    | ok a =>
      dsimp only [ok_bind]
      rw [problems_bind (hg a)]
      cases (f a).value with
      | error e => simp
      | ok s =>
        dsimp only
        rw [problems_bind fun a ↦ hg a s, hv]
        simp only [List.mem_append]
        tauto

/-- Loops over lists that are alike item by item. -/
theorem foldlM {R : α → β → Prop} {f : σ → α → Pass σ} {g : σ → β → Pass σ}
    (h : ∀ s a b, R a b → Alike (f s a) (g s b)) {as : List α} {bs : List β}
    (hR : List.Forall₂ R as bs) (s : σ) : Alike (as.foldlM f s) (bs.foldlM g s) := by
  induction hR generalizing s with
  | nil => exact refl (.pure s)
  | cons hab _ ih =>
    rw [List.foldlM_cons, List.foldlM_cons]
    exact bind (h s _ _ hab) ih

theorem atLine (line line' : Nat) (x : Noted Problem α) :
    Alike (TextScore.atLine line x) (TextScore.atLine line' x) := by
  refine ⟨.atLine line x, .atLine line' x, ?_, fun p ↦ ?_⟩ <;> simp

theorem report (line line' : Nat) (p : Problem) :
    Alike (TextScore.report line p) (TextScore.report line' p) :=
  ⟨.note _, .note _, rfl, fun _ ↦ Iff.rfl⟩

theorem forM_report (line line' : Nat) (ps : List Problem) :
    Alike (ps.forM (TextScore.report line)) (ps.forM (TextScore.report line')) := by
  induction ps with
  | nil => exact refl (.pure ())
  | cons p ps ih => exact bind (report line line' p) fun _ ↦ ih

end Alike

end Pass

/-! ## What is said

A message is given if some report has it.  The line of a diagnostic does not count here, and cannot:
the lines are other ones. -/

namespace Journal

/-- The message is given to the writer of the score. -/
def Gives (j : Journal) (m : String) : Prop := ∃ d ∈ j.diagnostics, d.message = m

theorem gives_iff {j : Journal} {m : String} : j.Gives m ↔ ∃ r ∈ j.reports, r.2.message = m := by
  constructor
  · rintro ⟨d, hd, rfl⟩
    obtain ⟨r, hr, rfl⟩ := exists_report hd
    exact ⟨r, hr, rfl⟩
  · rintro ⟨r, hr, rfl⟩
    obtain ⟨d, hd, -, hmessage⟩ := exists_diagnostic hr
    exact ⟨d, hd, hmessage⟩

end Journal

theorem Journal.gives_append {j : Journal} {x : Pass α} {m : String} :
    (j ++ x.notes).Gives m ↔ j.Gives m ∨ ∃ p ∈ x.problems, p.message = m := by
  have hproblems : (∃ p ∈ x.problems, p.message = m) ↔ ∃ r ∈ x.reports, r.2.message = m := by
    constructor
    · rintro ⟨p, hp, rfl⟩
      obtain ⟨r, hr, rfl⟩ := List.mem_map.mp hp
      exact ⟨r, hr, rfl⟩
    · rintro ⟨r, hr, rfl⟩
      exact ⟨r.2, List.mem_map_of_mem hr, rfl⟩
  rw [gives_iff, gives_iff, reports_append, hproblems]
  simp only [List.mem_append, or_and_right, exists_or]
  rfl

/-- Behind the same journal the same is said. -/
theorem Pass.Alike.gives {x y : Pass α} (h : Alike x y) (j : Journal) (m : String) :
    (j ++ x.notes).Gives m ↔ (j ++ y.notes).Gives m := by
  simp only [Journal.gives_append, h.problems]

/-! ## Playing a line

The instruments of a line take their turns on the same tokens.  With a line for each of them the
tokens are made anew before each turn. -/

namespace Assembly

variable {content : List Char}

theorem alike_tokens (macros : Macro.Table) (line line' : Nat) (content : List Char) :
    Pass.Alike (tokens macros line content) (tokens macros line' content) := by
  rw [tokens_eq, tokens_eq]
  rcases macros.expand content with ⟨text, problems⟩
  exact .bind (.forM_report line line' problems) fun _ ↦ .bind (.atLine line line' _) fun _ ↦
    .refl (.pure _)

theorem alike_turn (line line' : Nat) (b : Block) (start : Float) (ts : List Token) (a : Assembly)
    (id : String) : Pass.Alike (turn line b start ts a id) (turn line' b start ts a id) :=
  .bind (.refl (.ofExcept _)) fun _ ↦ .bind (.atLine line line' _) fun _ ↦ .refl (.pure _)

theorem alike_playStaff (line line' : Nat) (b : Block) (start : Float) (ts : List Token)
    (a : Assembly) (id : String) :
    Pass.Alike (playStaff line b start ts a id) (playStaff line' b start ts a id) := by
  have hturn := alike_turn line line' b start ts a id
  rw [playStaff_eq, playStaff_eq]
  split
  · exact .bind (.report line line' _) fun _ ↦ hturn
  · exact hturn

/-- The number of a line matters to its reports only. -/
theorem alike_playLine (macros : Macro.Table) (b : Block) (start : Float) (a : Assembly)
    {l l' : Nat × List Char} (h : l'.2 = l.2) :
    Pass.Alike (playLine macros b start a l) (playLine macros b start a l') := by
  rw [playLine, playLine, h]
  cases Assignment.read? l.2 with
  | none => exact .refl (.pure a)
  | some s =>
    refine .bind (alike_tokens macros l.1 l'.1 _) fun ts ↦ ?_
    refine .foldlM (R := Eq) ?_ (List.forall₂_refl _) a
    rintro a id _ rfl
    exact alike_playStaff l.1 l'.1 b start ts a id

/-- Lines for single instruments with the same text are played like one line for all of them. -/
theorem alike_lineFor (macros : Macro.Table) (b : Block) (start : Float) (line : Nat)
    (hline : '\n' ∉ content) (htrim : trim content = content) {ids : List (List Char)}
    (hids : ids ≠ []) (hne : ∀ id ∈ ids, id ≠ []) (hword : ∀ id ∈ ids, ∀ c ∈ id, isWord c = true)
    {new : List (Nat × List Char)}
    (hnew : new.map Prod.snd = ids.map fun id ↦ Assignment.lineFor id content) (a : Assembly) :
    Pass.Alike (new.foldlM (playLine macros b start) a) (tokens macros line content >>= fun ts ↦
      (ids.map String.ofList).foldlM (playStaff line b start ts) a) := by
  induction ids generalizing new a with
  | nil => exact absurd rfl hids
  | cons id ids ih =>
    obtain ⟨⟨line', text⟩, new, rfl, rfl, hothers⟩ := List.map_eq_cons_iff.mp hnew
    rw [List.forall_mem_cons] at hne hword
    have hfirst : Pass.Alike (playLine macros b start a (line', Assignment.lineFor id content))
        (tokens macros line content >>= fun ts ↦
          playStaff line b start ts a (String.ofList id)) := by
      rw [playLine_lineFor hne.1 hword.1 hline, htrim]
      exact .bind (alike_tokens macros line' line content) fun ts ↦
        alike_playStaff line' line b start ts a _
    simp only [List.map_cons, List.foldlM_cons]
    by_cases hlast : ids = []
    · subst hlast
      obtain rfl : new = [] := List.map_eq_nil_iff.mp hothers
      simpa using hfirst
    · -- the tokens are put together once more for the other instruments
      refine (Pass.Alike.bind hfirst (ih hlast hne.2 hword.2 hothers)).trans (.symm ?_)
      exact .again (appends_tokens macros line content)
        (fun ts ↦ appends_playStaff line b start ts a _)
        fun ts ↦ .foldlM (appends_playStaff line b start ts) (ids.map String.ofList)

end Assembly

/-! ## Lines set apart

Any of the lines of a score may be set apart, all at once, and line numbers may be anything.  The
same instrument may be named twice, and then it has two lines. -/

/-- In the second list some staff lines of the first one are set apart: instead of a line for
several instruments there is a line for each of them.  Numbers of lines do not matter. -/
inductive SetApart : List (Nat × List Char) → List (Nat × List Char) → Prop
  /-- No lines. -/
  | nil : SetApart [] []
  /-- A line that is kept. -/
  | keep {l l' : Nat × List Char} {ls ls' : List (Nat × List Char)} (h : l'.2 = l.2)
      (hls : SetApart ls ls') : SetApart (l :: ls) (l' :: ls')
  /-- A staff line that is set apart. -/
  | apart {l : Nat × List Char} {s : Assignment} {new ls ls' : List (Nat × List Char)}
      (hread : Assignment.read? l.2 = some s)
      (hnew : new.map Prod.snd = s.ids.map fun id ↦ Assignment.lineFor id s.content)
      (hls : SetApart ls ls') : SetApart (l :: ls) (new ++ ls')

/-- In the second block some staff lines of the first one are set apart. -/
def Block.SetApart (b b' : Block) : Prop :=
  ∃ ls, TextScore.SetApart b.lines ls ∧ b' = { b with lines := ls }

namespace Assembly

theorem alike_setApart (macros : Macro.Table) (b : Block) (start : Float)
    {ls ls' : List (Nat × List Char)} (h : SetApart ls ls') (a : Assembly) :
    Pass.Alike (ls'.foldlM (playLine macros b start) a)
      (ls.foldlM (playLine macros b start) a) := by
  induction h generalizing a with
  | nil => exact .refl (.pure a)
  | keep htext _ ih =>
    rw [List.foldlM_cons, List.foldlM_cons]
    exact .bind (.symm (alike_playLine macros b start a htext)) ih
  | @apart l s new ls ls' hread hnew _ ih =>
    have hs := Assignment.wellFormed_of_read? hread
    have hline : '\n' ∉ s.content := by simpa using hs.oneLine
    have hl : playLine macros b start a l = tokens macros l.1 s.content >>= fun ts ↦
        (s.ids.map String.ofList).foldlM (playStaff l.1 b start ts) a := by
      rw [playLine, hread]
    rw [List.foldlM_append, List.foldlM_cons, hl]
    exact .bind (alike_lineFor macros b start l.1 hline hs.trimmed hs.ids_ne_nil hs.id_ne_nil
      hs.word hnew a) ih

end Assembly

namespace Timeline

theorem alike_addBlock (macros : Macro.Table) (t : Timeline) {b b' : Block} (h : b.SetApart b') :
    Pass.Alike (addBlock macros t b') (addBlock macros t b) := by
  obtain ⟨ls, hls, rfl⟩ := h
  exact .bind (Assembly.alike_setApart macros b t.secondsOffset hls _) fun _ ↦
    .refl (.bind (.ofExcept _) fun _ ↦ .bind (.ofExcept _) fun _ ↦ .bind (.note _) fun _ ↦ .pure _)

/-- Blocks are played alike with some of their staff lines set apart. -/
theorem alike_setApart (macros : Macro.Table) (e : Ensemble) {bs bs' : List Block}
    (h : List.Forall₂ Block.SetApart bs bs') :
    Pass.Alike (ofBlocks macros e bs') (ofBlocks macros e bs) := by
  have hstep (t : Timeline) (b' b : Block) (hb : flip Block.SetApart b' b) :
      Pass.Alike (addBlock macros t b') (addBlock macros t b) := alike_addBlock macros t hb
  exact .foldlM hstep h.flip _

end Timeline

namespace Draft

/-- Plays the blocks of a body and puts the notes in the order of time. -/
def ofBody (macros : Macro.Table) (e : Ensemble) (body : Body) : Pass Draft := do
  ofTimeline body (← Timeline.ofBlocks macros e body.blocks)

/-- The body is kept beside the notes. -/
theorem ofTimeline_eq_bind (body body' : Body) (t : Timeline) :
    ofTimeline body' t = ofTimeline body t >>= fun d ↦ pure { d with body := body' } := by
  rw [ofTimeline, ofTimeline]
  dsimp only
  split <;> simp only [bind_assoc, pure_bind]

theorem body_of_ofBody {macros : Macro.Table} {e : Ensemble} {body : Body} {d : Draft}
    (h : (ofBody macros e body).value = .ok d) : d.body = body := by
  rw [ofBody, Noted.value_bind (appends_ofTimeline body)] at h
  obtain ⟨t, -, h⟩ := bind_eq_ok h
  rw [ofTimeline_value] at h
  obtain ⟨groups, -, rfl⟩ := map_eq_ok h
  rfl

theorem alike_setApart (macros : Macro.Table) (e : Ensemble) {body : Body} {bs : List Block}
    (h : List.Forall₂ Block.SetApart body.blocks bs) :
    Pass.Alike (ofBody macros e { body with blocks := bs })
      (ofBody macros e body >>= fun d ↦ pure { d with body := { body with blocks := bs } }) := by
  rw [ofBody, ofBody, bind_assoc, funext (ofTimeline_eq_bind body { body with blocks := bs })]
  exact .bind (Timeline.alike_setApart macros e h) fun t ↦
    .refl (.bind (appends_ofTimeline body t) fun _ ↦ .pure _)

/-- **One line for several instruments** stands for as many lines.  If staff lines of a score are
replaced by a line for each of their instruments, the timeline is the same, with all notes in the
order in which they are played, all instruments and all staves.  The score is the same but for its
diagnostics, and those give the same messages, behind whatever was reported before. -/
theorem broadcast_ofBody {macros : Macro.Table} {e : Ensemble} {body : Body} {bs : List Block}
    {t : Timeline} (h : List.Forall₂ Block.SetApart body.blocks bs)
    (ht : (Timeline.ofBlocks macros e body.blocks).value = .ok t) :
    (Timeline.ofBlocks macros e bs).value = .ok t ∧
      (∀ d, (ofBody macros e body).value = .ok d →
        ∃ d', (ofBody macros e { body with blocks := bs }).value = .ok d' ∧
          d'.ensemble = d.ensemble ∧
          ∀ j j', d'.score j' = { d.score j with diagnostics := j'.diagnostics.toList }) ∧
      ∀ (j : Journal) (m : String),
        (j ++ (ofBody macros e { body with blocks := bs }).notes).Gives m ↔
          (j ++ (ofBody macros e body).notes).Gives m := by
  have halike := alike_setApart macros e h
  have hkept {β : Type} (x : Pass Draft) (f : Draft → β) :
      (x >>= fun d ↦ pure (f d)).problems = x.problems := by
    rw [Pass.problems_bind fun _ ↦ .pure _]
    cases x.value <;> exact List.append_nil _
  refine ⟨(Timeline.alike_setApart macros e h).value.trans ht, fun d hd ↦ ?_, fun j m ↦ ?_⟩
  · refine ⟨{ d with body := { body with blocks := bs } }, ?_, rfl, fun j j' ↦ ?_⟩
    · rw [halike.value, Noted.value_bind fun _ ↦ .pure _, hd]
      rfl
    · rw [score, score, body_of_ofBody hd]
  · rw [halike.gives, Journal.gives_append, Journal.gives_append, hkept]

/-- A line that names an instrument twice, with a token that is reported, and a line that stays. -/
def shared : Body :=
  ⟨[⟨1, 1, 120, ⟨4, 4⟩, [(2, "a, b, a: c4 ?".toList), (3, "b: $x d".toList)]⟩], none, none⟩

/-- The same with a line for every name on the first line. -/
def apart : List Block :=
  [⟨1, 1, 120, ⟨4, 4⟩, [(2, "a: c4 ?".toList), (3, "b: c4 ?".toList), (4, "a: c4 ?".toList),
    (5, "b: $x d".toList)]⟩]

theorem broadcast_ofBody_shared :
    ∃ t d d', List.Forall₂ Block.SetApart shared.blocks apart ∧
      (Timeline.ofBlocks ∅ { defaults := {} } shared.blocks).value = .ok t ∧
      (Timeline.ofBlocks ∅ { defaults := {} } apart).value = .ok t ∧
      (ofBody ∅ { defaults := {} } shared).value = .ok d ∧
      (ofBody ∅ { defaults := {} } { shared with blocks := apart }).value = .ok d' ∧
      d'.ensemble = d.ensemble ∧
      (∀ j j', d'.score j' = { d.score j with diagnostics := j'.diagnostics.toList }) ∧
      ∀ (j : Journal) (m : String),
        (j ++ (ofBody ∅ { defaults := {} } { shared with blocks := apart }).notes).Gives m ↔
          (j ++ (ofBody ∅ { defaults := {} } shared).notes).Gives m := by
  have hlines : SetApart [(2, "a, b, a: c4 ?".toList), (3, "b: $x d".toList)]
      ([(2, "a: c4 ?".toList), (3, "b: c4 ?".toList), (4, "a: c4 ?".toList)] ++
        [(5, "b: $x d".toList)]) :=
    .apart (s := ⟨["a".toList, "b".toList, "a".toList], "c4 ?".toList⟩) (by decide +kernel) rfl
      (.keep rfl .nil)
  have hblocks : List.Forall₂ Block.SetApart shared.blocks apart := .cons ⟨_, hlines, rfl⟩ .nil
  obtain ⟨t, ht, hgroups⟩ := exists_ok_of_any
    (x := (Timeline.ofBlocks ∅ { defaults := {} } shared.blocks).value) (f := fun t ↦
      (t.assembly.ensemble.groups.mapM (layout t.assembly.ensemble)).toOption.isSome)
    (by decide +kernel)
  obtain ⟨groups, hgroups⟩ := exists_ok hgroups
  have hdraft : ∃ d, (ofBody ∅ { defaults := {} } shared).value = .ok d := by
    rw [ofBody, Noted.value_bind (appends_ofTimeline shared), ht, ok_bind, ofTimeline_value,
      hgroups]
    exact ⟨_, rfl⟩
  obtain ⟨d, hd⟩ := hdraft
  obtain ⟨ht', hscore, hgives⟩ := broadcast_ofBody hblocks ht
  obtain ⟨d', hd', hensemble, hsame⟩ := hscore d hd
  exact ⟨t, d, d', hblocks, ht, ht', hd, hd', hensemble, hsame, hgives⟩

end Draft

end TextScore
