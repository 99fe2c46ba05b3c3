import Mathlib.Data.List.Induction
import TextScore.Proofs.Noted

/-!
# What a computation reports

`Noted.value` forgets the notes of a computation; here they are kept.  As long as no computation
looks at the notes taken before it, the notes of a sequence are the notes of its steps, one after
the other.

The way from a problem to the writer of the score has two stations.  A stage reports the problem at
a line, and the journal has it as often as it was met; then the journal is read for its diagnostics,
and of several reports with one message and line only the first is left.  Both stations lose
nothing: every report becomes a diagnostic, and every diagnostic comes from a report.

## What is here

* `Noted.notes`, `Pass.reports` — what is noted, and the problems among it.
* `Noted.notes_bind`, `Pass.reports_bind` — the notes of a sequence.
* `Pass.foldlM_invariant` — what every step of a loop keeps, with what it reports.
* `Noted.Emits` — all notes of a computation are of one kind.
* `Journal.exists_diagnostic`, `Journal.exists_report` — every problem that is reported becomes a
  diagnostic at its line, and nothing else does.
-/

set_option autoImplicit false

namespace TextScore

variable {ν μ α β σ : Type}

namespace Noted

/-- The notes of a computation, also of one that fails. -/
def notes (x : Noted ν α) : Array ν := x.outcome.2

@[simp] theorem notes_note (n : ν) : (note n : Noted ν Unit).notes = #[n] := rfl

@[simp] theorem notes_ofExcept (x : Except Fault α) : (ofExcept x : Noted ν α).notes = #[] := by
  cases x <;> rfl

@[simp] theorem notes_mapNotes (g : ν → μ) (x : Noted ν α) :
    (x.mapNotes g).notes = x.notes.map g := by
  rw [notes, notes, outcome_eq_ofResult, outcome_eq_ofResult]
  unfold mapNotes
  rw [EStateM.run]
  cases x #[] <;> simp [ofResult]

theorem outcome_eq (x : Noted ν α) : x.outcome = (x.value, x.notes) := rfl

/-- The value and the notes of two steps. -/
theorem outcome_bind {x : Noted ν α} {f : α → Noted ν β} (hf : ∀ a, Appends (f a)) :
    (x >>= f).outcome = match x.value with
      | .ok a => ((f a).value, x.notes ++ (f a).notes)
      | .error e => (.error e, x.notes) := by
  rw [value, notes, outcome_eq_ofResult, outcome_eq_ofResult, bind_apply]
  cases x #[] with
  | ok a ns =>
    dsimp only
    rw [hf a ns]
    show _ = ((f a).outcome.1, ns ++ (f a).outcome.2)
    rcases (f a).outcome with ⟨b | e, ms⟩ <;> rfl
  | error e ns => rfl

/-- The notes of two steps, if the first one comes to an end. -/
theorem notes_bind {x : Noted ν α} {f : α → Noted ν β} {a : α} (hf : ∀ a, Appends (f a))
    (ha : x.value = .ok a) : (x >>= f).notes = x.notes ++ (f a).notes := by
  rw [notes, outcome_bind hf, ha]

/-- Computations that yield and note the same do so with the same step behind them. -/
theorem outcome_bind_congr {x y : Noted ν α} {f : α → Noted ν β} (hf : ∀ a, Appends (f a))
    (h : x.outcome = y.outcome) : (x >>= f).outcome = (y >>= f).outcome := by
  rw [outcome_eq, outcome_eq, Prod.mk.injEq] at h
  rw [outcome_bind hf, outcome_bind hf, h.1, h.2]

/-- What the first of two steps notes, both note. -/
theorem mem_notes_bind {x : Noted ν α} {f : α → Noted ν β} (hf : ∀ a, Appends (f a)) {n : ν}
    (hn : n ∈ x.notes) : n ∈ (x >>= f).notes := by
  rw [notes, outcome_bind hf]
  cases x.value with
  | ok a => exact Array.mem_append_left _ hn
  | error e => exact hn

/-- What a round of a loop notes, the loop notes. -/
theorem mem_notes_foldlM {f : σ → α → Noted ν σ} (hf : ∀ s a, Appends (f s a)) {as : List α}
    (bs : List α) {a : α} {s s₁ : σ} (h : (as.foldlM f s).value = .ok s₁) {n : ν}
    (hn : n ∈ (f s₁ a).notes) : n ∈ ((as ++ a :: bs).foldlM f s).notes := by
  rw [List.foldlM_append, notes_bind (fun s ↦ .foldlM hf (a :: bs) s) h, List.foldlM_cons]
  exact Array.mem_append_right _ (mem_notes_bind (fun s ↦ .foldlM hf bs s) hn)

/-- An item with which a loop does nothing can be left out. -/
theorem outcome_foldlM_skip {f : σ → α → Noted ν σ} (hf : ∀ s a, Appends (f s a))
    (as bs : List α) {a : α} {s : σ}
    (h : ∀ s₁, (as.foldlM f s).value = .ok s₁ → f s₁ a = pure s₁) :
    ((as ++ a :: bs).foldlM f s).outcome = ((as ++ bs).foldlM f s).outcome := by
  rw [List.foldlM_append, List.foldlM_append, outcome_bind fun s ↦ .foldlM hf (a :: bs) s,
    outcome_bind fun s ↦ .foldlM hf bs s]
  cases hs : (as.foldlM f s).value with
  | error e => rfl
  | ok s₁ =>
    dsimp only
    rw [List.foldlM_cons, h s₁ hs, pure_bind]

end Noted

/-! ## Problems -/

/-- The problems that a pass reports, with their lines, in order. -/
def Pass.reports (x : Pass α) : List (Nat × Problem) := Journal.reports (Noted.notes x)

theorem Journal.reports_append (j k : Journal) : reports (j ++ k) = j.reports ++ k.reports := by
  rw [reports, reports, reports, Array.toList_append, List.filterMap_append]

theorem Journal.mem_reports {j : Journal} {line : Nat} {p : Problem} :
    (line, p) ∈ j.reports ↔ .problem line p ∈ j := by
  rw [reports, List.mem_filterMap, ← Array.mem_toList_iff]
  constructor
  · rintro ⟨e, he, h⟩
    cases e <;> cases h
    exact he
  · intro h
    exact ⟨_, h, rfl⟩

namespace Pass

@[simp] theorem reports_pure (a : α) : (pure a : Pass α).reports = [] := rfl

@[simp] theorem reports_ofExcept (x : Except Fault α) :
    reports (Noted.ofExcept x : Pass α) = [] := by
  rw [reports, Noted.notes_ofExcept]
  rfl

/-- The problems of two steps, if the first one comes to an end. -/
theorem reports_bind {x : Pass α} {f : α → Pass β} {a : α} (hf : ∀ a, (f a).Appends)
    (ha : x.value = .ok a) : (x >>= f).reports = x.reports ++ (f a).reports := by
  rw [reports, Noted.notes_bind hf ha, Journal.reports_append]
  rfl

/-- The problems of a loop, if its first round comes to an end. -/
theorem reports_foldlM_cons {f : σ → α → Pass σ} (hf : ∀ s a, (f s a).Appends) {a : α}
    {as : List α} {s s₁ : σ} (h : (f s a).value = .ok s₁) :
    ((a :: as).foldlM f s).reports = (f s a).reports ++ (as.foldlM f s₁).reports := by
  rw [List.foldlM_cons, reports_bind (fun s ↦ .foldlM hf as s) h]

/-- What every round of a loop keeps, the loop keeps.  The invariant may speak of the items behind
it and of the problems reported so far. -/
theorem foldlM_invariant {f : σ → α → Pass σ} {P : List α → σ → List (Nat × Problem) → Prop}
    (hf : ∀ s a, (f s a).Appends)
    (hstep : ∀ past s a s' rs, P past s rs → (f s a).value = .ok s' →
      P (past ++ [a]) s' (rs ++ (f s a).reports))
    {as : List α} {s s' : σ} (hs : P [] s []) (h : (as.foldlM f s).value = .ok s') :
    P as s' (as.foldlM f s).reports := by
  suffices hgen : ∀ past s rs, P past s rs → (as.foldlM f s).value = .ok s' →
      P (past ++ as) s' (rs ++ (as.foldlM f s).reports) from hgen [] s [] hs h
  clear hs h
  induction as with
  | nil =>
    intro past s rs hs h
    cases h
    rw [List.append_nil, List.foldlM_nil, reports_pure, List.append_nil]
    exact hs
  | cons a as ih =>
    intro past s rs hs h
    rw [Noted.value_foldlM hf] at h
    obtain ⟨s₁, h₁, h₂⟩ := foldlM_cons_ok h
    rw [← Noted.value_foldlM hf] at h₂
    rw [reports_foldlM_cons hf h₁, List.append_cons, ← List.append_assoc]
    exact ih _ s₁ _ (hstep past s a s₁ rs hs h₁) h₂

/-- The pass comes to an end with `a`, and it reports nothing. -/
structure Yields (x : Pass α) (a : α) : Prop where
  /-- What the pass comes to. -/
  value : x.value = .ok a
  /-- Nothing is reported. -/
  reports : x.reports = []

namespace Yields

theorem pure (a : α) : (Pure.pure a : Pass α).Yields a := ⟨rfl, rfl⟩

theorem bind {x : Pass α} {f : α → Pass β} {a : α} {b : β} (hf : ∀ a, (f a).Appends)
    (hx : x.Yields a) (h : (f a).Yields b) : (x >>= f).Yields b where
  value := by rw [Noted.value_bind hf, hx.value, ok_bind, h.value]
  reports := by rw [reports_bind hf hx.value, hx.reports, h.reports, List.nil_append]

theorem foldlM_cons {f : σ → α → Pass σ} (hf : ∀ s a, (f s a).Appends) {a : α} {as : List α}
    {s s₁ s₂ : σ} (ha : (f s a).Yields s₁) (has : (as.foldlM f s₁).Yields s₂) :
    ((a :: as).foldlM f s).Yields s₂ := by
  rw [List.foldlM_cons]
  exact .bind (fun s ↦ .foldlM hf as s) ha has

theorem foldlM_append {f : σ → α → Pass σ} (hf : ∀ s a, (f s a).Appends) {as bs : List α}
    {s s₁ s₂ : σ} (has : (as.foldlM f s).Yields s₁) (hbs : (bs.foldlM f s₁).Yields s₂) :
    ((as ++ bs).foldlM f s).Yields s₂ := by
  rw [List.foldlM_append]
  exact .bind (fun s ↦ .foldlM hf bs s) has hbs

end Yields

end Pass

/-! ## Notes of one kind -/

namespace Noted

/-- The computation does not look at the notes before, and all that it notes satisfies `P`. -/
structure Emits (P : ν → Prop) (x : Noted ν α) : Prop where
  /-- The notes before do not matter. -/
  appends : x.Appends
  /-- The notes taken. -/
  notes : ∀ n ∈ x.notes, P n

namespace Emits

variable {P : ν → Prop}

theorem pure (a : α) : Emits P (Pure.pure a : Noted ν α) :=
  ⟨.pure a, fun n hn ↦ absurd hn (Array.not_mem_empty n)⟩

theorem note {n : ν} (h : P n) : Emits P (TextScore.note n) := by
  refine ⟨.note n, fun m hm ↦ ?_⟩
  rw [notes_note, Array.mem_singleton] at hm
  rwa [hm]

theorem ofExcept (x : Except Fault α) : Emits P (Noted.ofExcept x : Noted ν α) := by
  refine ⟨.ofExcept x, fun n hn ↦ ?_⟩
  rw [notes_ofExcept] at hn
  exact absurd hn (Array.not_mem_empty n)

theorem fail (f : Fault) : Emits P (TextScore.fail f : Noted ν α) := ofExcept (.error f)

theorem bind {x : Noted ν α} {f : α → Noted ν β} (hx : Emits P x) (hf : ∀ a, Emits P (f a)) :
    Emits P (x >>= f) := by
  refine ⟨.bind hx.appends fun a ↦ (hf a).appends, fun n hn ↦ ?_⟩
  rw [Noted.notes, outcome_bind fun a ↦ (hf a).appends] at hn
  cases hv : x.value with
  | ok a =>
    rw [hv] at hn
    rcases Array.mem_append.mp hn with hn | hn
    · exact hx.notes n hn
    · exact (hf a).notes n hn
  | error e =>
    rw [hv] at hn
    exact hx.notes n hn

theorem foldlM_mem {f : σ → α → Noted ν σ} {as : List α} (hf : ∀ a ∈ as, ∀ s, Emits P (f s a))
    (s : σ) : Emits P (as.foldlM f s) := by
  induction as generalizing s with
  | nil => exact pure s
  | cons a as ih =>
    rw [List.forall_mem_cons] at hf
    rw [List.foldlM_cons]
    exact bind (hf.1 s) (ih hf.2)

theorem foldlM {f : σ → α → Noted ν σ} (hf : ∀ s a, Emits P (f s a)) (as : List α) (s : σ) :
    Emits P (as.foldlM f s) :=
  foldlM_mem (fun a _ s ↦ hf s a) s

theorem forM {f : α → Noted ν Unit} {as : List α} (hf : ∀ a ∈ as, Emits P (f a)) :
    Emits P (as.forM f) := by
  induction as with
  | nil => exact pure ()
  | cons a as ih =>
    exact bind (hf a List.mem_cons_self) fun _ ↦ ih fun b hb ↦ hf b (List.mem_cons_of_mem a hb)

theorem mapNotes {Q : μ → Prop} {g : ν → μ} (hg : ∀ n, P n → Q (g n)) {x : Noted ν α}
    (hx : Emits P x) : Emits Q (x.mapNotes g) := by
  refine ⟨.mapNotes g x, fun m hm ↦ ?_⟩
  rw [notes_mapNotes] at hm
  obtain ⟨n, hn, rfl⟩ := Array.mem_map.mp hm
  exact hg n (hx.notes n hn)

end Emits

end Noted

/-! ## Diagnostics -/

namespace Diagnostic

/-- A list of diagnostics with one more is the same list or one longer, and says the new one. -/
theorem insert_cases (ds : Array Diagnostic) (d : Diagnostic) :
    (insert ds d = ds ∧ ∃ e ∈ ds, e.line = d.line ∧ e.message = d.message) ∨
      insert ds d = ds.push d := by
  rw [insert]
  split
  case isTrue h =>
    obtain ⟨e, he, heq⟩ := Array.any_eq_true'.mp h
    rw [Bool.and_eq_true, beq_iff_eq, beq_iff_eq] at heq
    exact .inl ⟨rfl, e, he, heq⟩
  case isFalse => exact .inr rfl

theorem mem_insert_of_mem {ds : Array Diagnostic} {d e : Diagnostic} (h : e ∈ ds) :
    e ∈ insert ds d := by
  obtain ⟨heq, -⟩ | heq := insert_cases ds d <;> rw [heq]
  · exact h
  · exact Array.mem_push.mpr (.inl h)

/-- Only what has a message can stand in the way of one more diagnostic with it. -/
theorem filter_insert (m : String) (ds : Array Diagnostic) (d : Diagnostic) :
    (insert ds d).filter (·.message = m) =
      if d.message = m then insert (ds.filter (·.message = m)) d
      else ds.filter (·.message = m) := by
  by_cases hm : d.message = m
  · have hany : (ds.filter (·.message = m)).any
        (fun e ↦ e.line == d.line && e.message == d.message) =
        ds.any fun e ↦ e.line == d.line && e.message == d.message := by
      have hboth : (fun e : Diagnostic ↦ decide (e.message = m) &&
          (e.line == d.line && e.message == d.message)) =
          fun e ↦ e.line == d.line && e.message == d.message := by
        funext e
        rw [hm]
        by_cases he : e.message = m <;> simp [he]
      rw [Array.any_filter, hboth]
    rw [if_pos hm, insert, insert, hany]
    split
    · rfl
    · rw [Array.filter_push, if_pos (decide_eq_true hm)]
  · rw [if_neg hm, insert]
    split
    · rfl
    · rw [Array.filter_push, if_neg (by rwa [decide_eq_true_eq])]

end Diagnostic

namespace Journal

/-- The diagnostics with those for some reports more. -/
def diagnosticsOnto (ds : Array Diagnostic) (rs : List (Nat × Problem)) : Array Diagnostic :=
  rs.foldl (fun ds r ↦ Diagnostic.insert ds (.ofProblem r.1 r.2)) ds

theorem diagnostics_eq (j : Journal) : j.diagnostics = diagnosticsOnto #[] j.reports := rfl

/-- Diagnostics with one message come from the problems with that message. -/
theorem filter_diagnosticsOnto (m : String) (ds : Array Diagnostic) (rs : List (Nat × Problem)) :
    (diagnosticsOnto ds rs).filter (·.message = m) =
      diagnosticsOnto (ds.filter (·.message = m)) (rs.filter (·.2.message = m)) := by
  induction rs generalizing ds with
  | nil => rfl
  | cons r rs ih =>
    show (diagnosticsOnto (Diagnostic.insert ds (.ofProblem r.1 r.2)) rs).filter _ = _
    have hmessage : (Diagnostic.ofProblem r.1 r.2).message = r.2.message := rfl
    rw [ih, Diagnostic.filter_insert, List.filter_cons, hmessage]
    by_cases hm : r.2.message = m
    · rw [if_pos hm, if_pos (decide_eq_true hm)]
      rfl
    · rw [if_neg hm, if_neg (by rwa [decide_eq_true_eq])]

theorem mem_diagnosticsOnto {ds : Array Diagnostic} {rs : List (Nat × Problem)} {d : Diagnostic}
    (h : d ∈ ds) : d ∈ diagnosticsOnto ds rs := by
  induction rs generalizing ds with
  | nil => exact h
  | cons r rs ih => exact ih (Diagnostic.mem_insert_of_mem h)

theorem exists_diagnosticsOnto {ds : Array Diagnostic} {rs : List (Nat × Problem)} {line : Nat}
    {p : Problem} (h : (line, p) ∈ rs) :
    ∃ d ∈ diagnosticsOnto ds rs, d.line = line ∧ d.message = p.message := by
  induction rs generalizing ds with
  | nil => cases h
  | cons r rs ih =>
    rcases List.mem_cons.mp h with rfl | h
    · show ∃ d ∈ diagnosticsOnto (Diagnostic.insert ds (.ofProblem line p)) rs, _
      obtain ⟨-, e, he, hline, hmessage⟩ | heq :=
        Diagnostic.insert_cases ds (.ofProblem line p)
      · exact ⟨e, mem_diagnosticsOnto (Diagnostic.mem_insert_of_mem he), hline, hmessage⟩
      · refine ⟨.ofProblem line p, mem_diagnosticsOnto ?_, rfl, rfl⟩
        rw [heq]
        exact Array.mem_push_self
    · exact ih h

/-- Every problem that is reported becomes a diagnostic at its line. -/
theorem exists_diagnostic {j : Journal} {line : Nat} {p : Problem} (h : (line, p) ∈ j.reports) :
    ∃ d ∈ j.diagnostics, d.line = line ∧ d.message = p.message :=
  exists_diagnosticsOnto h

theorem diagnosticsOnto_concat (ds : Array Diagnostic) (rs : List (Nat × Problem))
    (r : Nat × Problem) :
    diagnosticsOnto ds (rs ++ [r]) =
      Diagnostic.insert (diagnosticsOnto ds rs) (.ofProblem r.1 r.2) :=
  List.foldl_append

/-- Every diagnostic comes from a report. -/
theorem exists_report {rs : List (Nat × Problem)} {d : Diagnostic}
    (h : d ∈ diagnosticsOnto #[] rs) : ∃ r ∈ rs, d = .ofProblem r.1 r.2 := by
  induction rs using List.reverseRecOn with
  | nil => exact absurd h (Array.not_mem_empty d)
  | append_singleton rs r ih =>
    have hlast : d = .ofProblem r.1 r.2 ∨ d ∈ diagnosticsOnto #[] rs := by
      rw [diagnosticsOnto_concat] at h
      obtain ⟨hsame, -⟩ | hpush :=
        Diagnostic.insert_cases (diagnosticsOnto #[] rs) (.ofProblem r.1 r.2)
      · exact .inr (hsame ▸ h)
      · exact (Array.mem_push.mp (hpush ▸ h)).symm
    rcases hlast with rfl | h
    · exact ⟨r, List.mem_append_right rs List.mem_cons_self, rfl⟩
    · obtain ⟨q, hq, hd⟩ := ih h
      exact ⟨q, List.mem_append_left _ hq, hd⟩

end Journal

end TextScore
