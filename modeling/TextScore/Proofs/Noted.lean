import Mathlib.Data.List.Forall2
import TextScore.Journal

/-!
# What a computation yields

Two things that nearly every statement about a run needs: what a computation yields when its notes
are left aside, and what stands before an item in a list.

Most of what is proved about the compiler is about what its computations yield, not about what they
note on the way.  Leaving the notes aside is harmless only if they are never looked at.  A
computation could look at the notes taken before it; those of the compiler never do, they only add
notes of their own at the end.  That is `Noted.Appends`, and it makes `Noted.value` a morphism of
monads: what a sequence of steps yields is the sequence, in `Except Fault`, of what the steps yield.
So a statement about a loop of the compiler is proved of a loop in `Except Fault`, where a step that
succeeds is an equation.

## What is here

* `withPast` — every item with the items before it.
* `getLast?_filterMap_concat`, `getD_getLast?_filterMap` — the latest thing said among some items.
* `Noted.value` — the value or the fault, without the notes.
* `Noted.Appends` — the notes taken before do not matter.
* `Noted.value_bind`, `Noted.value_foldlM` — values of compound computations.
* `mapM_ok`, `foldlM_invariant` — runs of a loop that come to an end.
* `foldlM_filterMap_sim`, `foldlM_map`, `foldlM_congr` — two loops side by side.

The loops here come to an end by hypothesis.  How one fails is in `TextScore.Proofs.Outcome`, and
what it notes in `TextScore.Proofs.Reports`.
-/

set_option autoImplicit false

namespace TextScore

/-! ## Items and what stands before them

Much of what a score says holds until something else is said: what is in force at a place is the
latest thing said before it.  A reference for such a state is a list of past items and a search from
its end, and one item more either says something or leaves the search as it was. -/

/-- Every item with the items before it. -/
def withPast {α : Type} (past : List α) : List α → List (List α × α)
  | [] => []
  | a :: as => (past, a) :: withPast (past ++ [a]) as

theorem withPast_append {α : Type} (past as bs : List α) :
    withPast past (as ++ bs) = withPast past as ++ withPast (past ++ as) bs := by
  induction as generalizing past with
  | nil => rw [List.append_nil, List.nil_append, withPast, List.nil_append]
  | cons a as ih =>
    rw [List.cons_append, withPast, withPast, ih, List.cons_append, ← List.append_cons]

/-- The latest thing found among some items is found in the last one, or else before it. -/
theorem getLast?_filterMap_concat {α β : Type} (f : α → Option β) (as : List α) (a : α) :
    ((as ++ [a]).filterMap f).getLast? = (f a).or (as.filterMap f).getLast? := by
  rw [List.filterMap_append, List.getLast?_append]
  cases h : f a with
  | some b => rw [List.filterMap_cons_some h]; rfl
  | none => rw [List.filterMap_cons_none h]; rfl

/-- What all things have that are said, and what holds before anything is said, is had by the latest
one. -/
theorem getD_getLast?_filterMap {α β : Type} {f : α → Option β} {P : β → Prop} {as : List α} {b : β}
    (hb : P b) (hf : ∀ a ∈ as, ∀ x, f a = some x → P x) :
    P (((as.filterMap f).getLast?).getD b) := by
  cases h : (as.filterMap f).getLast? with
  | none => exact hb
  | some x =>
    obtain ⟨a, ha, hx⟩ := List.mem_filterMap.mp (List.mem_of_getLast? h)
    exact hf a ha x hx

/-! ## What a computation yields -/

variable {ν μ α β σ τ ε : Type}

/-- A second step goes on with the state that the first one leaves. -/
theorem bind_apply (x : EStateM ε σ α) (f : α → EStateM ε σ β) (s : σ) :
    (x >>= f) s = match x s with
      | .ok a s => f a s
      | .error e s => .error e s := by
  show EStateM.bind x f s = _
  rw [EStateM.bind]
  cases x s <;> rfl

namespace Noted

/-- The value or the fault, without the notes. -/
def value (x : Noted ν α) : Except Fault α := x.outcome.1

/-- The computation adds notes at the end, and the notes before do not matter to it. -/
def Appends (x : Noted ν α) : Prop :=
  ∀ ns, x ns = match x.outcome with
    | (.ok a, ms) => .ok a (ns ++ ms)
    | (.error f, ms) => .error f (ns ++ ms)

/-- What a run comes to: the value or the fault, and the notes. -/
def ofResult : EStateM.Result Fault (Array ν) α → Except Fault α × Array ν
  | .ok a ns => (.ok a, ns)
  | .error f ns => (.error f, ns)

theorem outcome_eq_ofResult (x : Noted ν α) : x.outcome = ofResult (x #[]) := by
  rw [outcome, EStateM.run]
  cases x #[] <;> rfl

/-! ### Leaves

The notes of a computation without steps are those it takes itself, so the lemmas are true by
definition but for the shape of the array. -/

@[simp] theorem value_pure (a : α) : (pure a : Noted ν α).value = .ok a := rfl

@[simp] theorem value_note (n : ν) : (note n : Noted ν Unit).value = .ok () := rfl

@[simp] theorem value_fail (f : Fault) : (fail f : Noted ν α).value = .error f := rfl

@[simp] theorem value_ofExcept (x : Except Fault α) : (ofExcept x : Noted ν α).value = x := by
  cases x <;> rfl

@[simp] theorem value_mapNotes (g : ν → μ) (x : Noted ν α) : (x.mapNotes g).value = x.value := by
  rw [value, value, outcome_eq_ofResult, outcome_eq_ofResult]
  unfold mapNotes
  rw [EStateM.run]
  cases x #[] <;> rfl

@[simp] theorem value_atLine (line : Nat) (x : Noted Problem α) :
    (atLine line x).value = x.value :=
  value_mapNotes _ x

namespace Appends

theorem pure (a : α) : Appends (Pure.pure a : Noted ν α) := fun ns ↦ by
  rw [outcome]
  show EStateM.Result.ok a ns = .ok a (ns ++ #[])
  rw [Array.append_empty]

theorem note (n : ν) : Appends (TextScore.note n) := fun _ ↦ rfl

theorem fail (f : Fault) : Appends (TextScore.fail f : Noted ν α) := fun ns ↦ by
  rw [outcome]
  show EStateM.Result.error f ns = .error f (ns ++ #[])
  rw [Array.append_empty]

theorem ofExcept (x : Except Fault α) : Appends (Noted.ofExcept x : Noted ν α) := by
  cases x with
  | ok a => exact pure a
  | error f => exact fail f

theorem mapNotes (g : ν → μ) (x : Noted ν α) : Appends (x.mapNotes g) := fun ns ↦ by
  rw [outcome, EStateM.run]
  unfold Noted.mapNotes
  cases x.run #[] <;> simp

theorem atLine (line : Nat) (x : Noted Problem α) : Appends (TextScore.atLine line x) :=
  mapNotes _ x

theorem bind {x : Noted ν α} {f : α → Noted ν β} (hx : Appends x) (hf : ∀ a, Appends (f a)) :
    Appends (x >>= f) := fun ns ↦ by
  rw [outcome, EStateM.run, bind_apply, bind_apply, hx ns, hx #[]]
  rcases x.outcome with ⟨a | e, ms⟩
  · simp
  · dsimp only
    rw [Array.empty_append, hf _ (ns ++ ms), hf _ ms]
    rcases (f _).outcome with ⟨b | e, ks⟩ <;> simp [Array.append_assoc]

theorem foldlM {f : σ → α → Noted ν σ} (hf : ∀ s a, Appends (f s a)) (as : List α) (s : σ) :
    Appends (as.foldlM f s) := by
  induction as generalizing s with
  | nil => exact pure s
  | cons a as ih =>
    rw [List.foldlM_cons]
    exact bind (hf s a) ih

end Appends

/-! ### Sequences -/

/-- What two steps yield, if the second one does not look at the notes of the first. -/
theorem value_bind {x : Noted ν α} {f : α → Noted ν β} (hf : ∀ a, Appends (f a)) :
    (x >>= f).value = x.value >>= fun a ↦ (f a).value := by
  rw [value, value, outcome_eq_ofResult, outcome_eq_ofResult, bind_apply]
  cases x #[] with
  | ok a ns =>
    dsimp only
    rw [hf a ns]
    show _ = (f a).value
    rw [value]
    rcases (f a).outcome with ⟨b | e, ms⟩ <;> rfl
  | error e ns => rfl

/-- What a loop yields. -/
theorem value_foldlM {f : σ → α → Noted ν σ} (hf : ∀ s a, Appends (f s a)) (as : List α) (s : σ) :
    (as.foldlM f s).value = as.foldlM (fun s a ↦ (f s a).value) s := by
  induction as generalizing s with
  | nil => rfl
  | cons a as ih =>
    rw [List.foldlM_cons, List.foldlM_cons, value_bind fun s ↦ Appends.foldlM hf as s]
    exact congrArg _ (funext ih)

theorem Appends.forM_note (g : α → ν) (as : List α) :
    Appends (as.forM fun a ↦ (TextScore.note (g a) : Noted ν Unit)) := by
  induction as with
  | nil => exact .pure ()
  | cons a as ih => exact .bind (.note _) fun _ ↦ ih

/-- Taking notes one after the other yields nothing. -/
theorem value_forM_note (g : α → ν) (as : List α) :
    (as.forM fun a ↦ (TextScore.note (g a) : Noted ν Unit)).value = .ok () := by
  induction as with
  | nil => rfl
  | cons a as ih => exact (value_bind fun _ ↦ .forM_note g as).trans ih

end Noted

/-! ### Loops that come to an end

The invariant of `foldlM_invariant` may speak of the items behind it.  That is what a statement
about history needs: behind some items the state is what those items say. -/

@[simp] theorem ok_bind (a : α) (f : α → Except ε β) : Except.ok a >>= f = f a := rfl

@[simp] theorem error_bind (e : ε) (f : α → Except ε β) : Except.error e >>= f = .error e := rfl

theorem bind_eq_ok {x : Except ε α} {f : α → Except ε β} {b : β} (h : x >>= f = .ok b) :
    ∃ a, x = .ok a ∧ f a = .ok b := by
  cases x with
  | ok a => exact ⟨a, rfl, h⟩
  | error e => cases h

theorem map_eq_ok {x : Except ε α} {f : α → β} {b : β} (h : x.map f = .ok b) :
    ∃ a, x = .ok a ∧ f a = b := by
  cases x with
  | ok a => exact ⟨a, rfl, Except.ok.inj h⟩
  | error e => cases h

theorem exists_ok {x : Except ε α} (h : x.toOption.isSome = true) : ∃ a, x = .ok a := by
  cases x with
  | ok a => exact ⟨a, rfl⟩
  | error e => cases h

theorem exists_ok_of_any {x : Except ε α} {f : α → Bool} (h : x.toOption.any f = true) :
    ∃ a, x = .ok a ∧ f a = true := by
  cases x with
  | ok a => exact ⟨a, rfl, h⟩
  | error e => cases h

theorem foldlM_cons_ok {f : σ → α → Except ε σ} {a : α} {as : List α} {s s' : σ}
    (h : (a :: as).foldlM f s = .ok s') : ∃ s₁, f s a = .ok s₁ ∧ as.foldlM f s₁ = .ok s' := by
  rw [List.foldlM_cons] at h
  exact bind_eq_ok h

/-- What is made of the items of a list, one by one. -/
theorem mapM_ok {f : α → Except ε β} {as : List α} {bs : List β} (h : as.mapM f = .ok bs) :
    List.Forall₂ (fun a b ↦ f a = .ok b) as bs := by
  induction as generalizing bs with
  | nil =>
    cases h
    exact .nil
  | cons a as ih =>
    rw [List.mapM_cons] at h
    obtain ⟨b, hb, h⟩ := bind_eq_ok h
    obtain ⟨cs, hcs, h⟩ := bind_eq_ok h
    cases h
    exact .cons hb (ih hcs)

/-- What every step keeps, a loop keeps.  The invariant may speak of the items behind it. -/
theorem foldlM_invariant {f : σ → α → Except ε σ} {P : List α → σ → Prop}
    (hstep : ∀ past s a s', P past s → f s a = .ok s' → P (past ++ [a]) s') {as : List α}
    {s s' : σ} (hs : P [] s) (h : as.foldlM f s = .ok s') : P as s' := by
  suffices hgen : ∀ past s, P past s → as.foldlM f s = .ok s' → P (past ++ as) s' from
    hgen [] s hs h
  clear hs h
  induction as with
  | nil =>
    intro past s hs h
    cases h
    rwa [List.append_nil]
  | cons a as ih =>
    intro past s hs h
    obtain ⟨s₁, h₁, h₂⟩ := foldlM_cons_ok h
    rw [List.append_cons]
    exact ih _ s₁ (hstep past s a s₁ hs h₁) h₂

/-- A loop that leaves out some items comes to an end if the loop over all items does, provided that
the items left out do not matter to it and each of the others is as good in both. -/
theorem foldlM_filterMap_sim {f : σ → α → Except ε σ} {g : τ → β → Except ε τ}
    {keep : α → Option β} {R : σ → τ → Prop}
    (hkeep : ∀ {a b s s₁ t}, keep a = some b → R s t → f s a = .ok s₁ →
      ∃ t₁, g t b = .ok t₁ ∧ R s₁ t₁)
    (hdrop : ∀ {a s s₁ t}, keep a = none → R s t → f s a = .ok s₁ → R s₁ t)
    {as : List α} {s s' : σ} {t : τ} (hst : R s t) (h : as.foldlM f s = .ok s') :
    ∃ t', (as.filterMap keep).foldlM g t = .ok t' ∧ R s' t' := by
  induction as generalizing s t with
  | nil =>
    cases h
    exact ⟨t, rfl, hst⟩
  | cons a as ih =>
    obtain ⟨s₁, h₁, h⟩ := foldlM_cons_ok h
    cases ha : keep a with
    | none =>
      rw [List.filterMap_cons_none ha]
      exact ih (hdrop ha hst h₁) h
    | some b =>
      obtain ⟨t₁, ht₁, hst₁⟩ := hkeep ha hst h₁
      obtain ⟨t', ht', hst'⟩ := ih hst₁ h
      rw [List.filterMap_cons_some ha, List.foldlM_cons, ht₁]
      exact ⟨t', ht', hst'⟩

/-- A change of state that commutes with every step commutes with the loop. -/
theorem foldlM_map {f : σ → α → Except ε σ} {g : σ → σ}
    (hstep : ∀ s a, f (g s) a = (f s a).map g) (as : List α) (s : σ) :
    as.foldlM f (g s) = (as.foldlM f s).map g := by
  induction as generalizing s with
  | nil => rfl
  | cons a as ih =>
    rw [List.foldlM_cons, List.foldlM_cons, hstep]
    cases f s a with
    | ok s => exact ih s
    | error e => rfl

/-- Two loops whose steps agree on the items agree. -/
theorem foldlM_congr {f f' : σ → α → Except ε σ} {as : List α}
    (h : ∀ s, ∀ a ∈ as, f' s a = f s a) (s : σ) : as.foldlM f' s = as.foldlM f s := by
  induction as generalizing s with
  | nil => rfl
  | cons a as ih =>
    rw [List.foldlM_cons, List.foldlM_cons, h s a List.mem_cons_self]
    exact bind_congr fun s ↦ ih (fun s b hb ↦ h s b (List.mem_cons_of_mem a hb)) s

end TextScore
