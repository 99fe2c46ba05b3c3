import TextScore.Proofs.Noted

/-!
# How a computation ends

A computation of the compiler can fail, and it takes notes.  This module has two predicates with
which both are followed through a run: `Ends` for what a computation yields or else fails with, and
`Noted.Ensures` for what it yields and what it notes.

Steps in a row fail as the first one does that fails; the steps before it have come to an end, and
the steps behind it do not matter.  So the causes of a whole run are found by collecting those of
its steps, with what is known of the state in which each step is taken.  Notes are different in that
those of a failed run count as well, and what is noted may depend on what earlier steps have
yielded.

## What is here

* `Ends` — what a computation yields or else fails with; what every step does, a loop does.
* `bind_eq_error`, `map_eq_error` — failing in one of two steps.
* `bind_ok_iff` — coming to an end in two steps.
* `foldlM_error`, `mapM_error` — failing in some round of a loop.
* `mapM_ok_iff` — a loop that makes something of every item fails only if it fails for some item.
* `Noted.Ensures` — what holds of the notes, and of the value behind them.
* `Noted.Ensures.bind`, `Noted.Ensures.foldlM` — computations of several steps.
-/

set_option autoImplicit false

namespace TextScore

/-! ## How a computation fails

`Ends` is closed under `bind` and loops, and that is how it is used: one lemma for every function of
a stage, each citing those of the functions it calls.  The equations on `error` are for the rest,
where the round of a loop in which it fails has to be found. -/

variable {α β σ ε : Type}

/-- What holds of the value of a computation that comes to an end, and of the fault of one that
fails. -/
structure Ends (Q : α → Prop) (E : ε → Prop) (x : Except ε α) : Prop where
  /-- The value. -/
  value : ∀ a, x = .ok a → Q a
  /-- The fault. -/
  fault : ∀ e, x = .error e → E e

namespace Ends

variable {Q : α → Prop} {R : β → Prop} {E E' : ε → Prop} {x : Except ε α}

theorem ok {a : α} (h : Q a) : Ends Q E (.ok a) where
  value := by
    rintro _ ⟨⟩
    exact h
  fault := fun _ h ↦ by cases h

theorem error {e : ε} (h : E e) : Ends Q E (.error e) where
  value := fun _ h ↦ by cases h
  fault := by
    rintro _ ⟨⟩
    exact h

theorem mono {Q' : α → Prop} (h : Ends Q E x) (hQ : ∀ a, Q a → Q' a) (hE : ∀ e, E e → E' e) :
    Ends Q' E' x :=
  ⟨fun a ha ↦ hQ a (h.value a ha), fun e he ↦ hE e (h.fault e he)⟩

theorem bind {f : α → Except ε β} (h : Ends Q E x) (hf : ∀ a, Q a → Ends R E (f a)) :
    Ends R E (x >>= f) := by
  cases x with
  | ok a => exact hf a (h.value a rfl)
  | error e => exact .error (h.fault e rfl)

theorem map {f : α → β} (h : Ends Q E x) (hf : ∀ a, Q a → R (f a)) : Ends R E (x.map f) := by
  cases x with
  | ok a => exact .ok (hf a (h.value a rfl))
  | error e => exact .error (h.fault e rfl)

/-- What every step of a loop keeps holds behind the loop, and the loop fails as a step does. -/
theorem foldlM {P : σ → Prop} {f : σ → α → Except ε σ} {as : List α} {s : σ} (hs : P s)
    (hstep : ∀ s, ∀ a ∈ as, P s → Ends P E (f s a)) : Ends P E (as.foldlM f s) := by
  induction as generalizing s with
  | nil => exact .ok hs
  | cons a as ih =>
    rw [List.foldlM_cons]
    refine (hstep s a List.mem_cons_self hs).bind fun s hs ↦ ?_
    exact ih hs fun s b hb ↦ hstep s b (List.mem_cons_of_mem a hb)

end Ends

theorem bind_eq_error {x : Except ε α} {f : α → Except ε β} {e : ε} (h : x >>= f = .error e) :
    x = .error e ∨ ∃ a, x = .ok a ∧ f a = .error e := by
  cases x with
  | ok a => exact .inr ⟨a, rfl, h⟩
  | error e' =>
    obtain rfl := Except.error.inj h
    exact .inl rfl

theorem map_eq_error {x : Except ε α} {f : α → β} {e : ε} (h : x.map f = .error e) :
    x = .error e := by
  cases x with
  | ok a => cases h
  | error e' =>
    obtain rfl := Except.error.inj h
    rfl

/-- Two steps come to an end if the first one does and the second one does with what it yields. -/
theorem bind_ok_iff {x : Except ε α} {f : α → Except ε β} :
    (∃ b, x >>= f = .ok b) ↔ ∃ a, x = .ok a ∧ ∃ b, f a = .ok b := by
  constructor
  · rintro ⟨b, h⟩
    obtain ⟨a, ha, h⟩ := bind_eq_ok h
    exact ⟨a, ha, b, h⟩
  · rintro ⟨a, rfl, h⟩
    exact h

/-- If the second step never fails, only the first one matters. -/
theorem bind_pure_ok_iff {x : Except ε α} {g : α → β} :
    (∃ b, (x >>= fun a ↦ pure (g a)) = .ok b) ↔ ∃ a, x = .ok a := by
  rw [bind_ok_iff]
  exact exists_congr fun a ↦ and_iff_left ⟨g a, rfl⟩

/-- A loop that fails has come as far as some item, and fails there. -/
theorem foldlM_error {f : σ → α → Except ε σ} {as : List α} {s : σ} {e : ε}
    (h : as.foldlM f s = .error e) :
    ∃ past a rest s₁, as = past ++ a :: rest ∧ past.foldlM f s = .ok s₁ ∧ f s₁ a = .error e := by
  induction as generalizing s with
  | nil => cases h
  | cons a as ih =>
    rw [List.foldlM_cons] at h
    rcases bind_eq_error h with h | ⟨s₁, hs₁, h⟩
    · exact ⟨[], a, as, s, rfl, rfl, h⟩
    · obtain ⟨past, b, rest, s₂, rfl, hpast, hb⟩ := ih h
      refine ⟨a :: past, b, rest, s₂, rfl, ?_, hb⟩
      rw [List.foldlM_cons, hs₁, ok_bind, hpast]

theorem mapM_error {f : α → Except ε β} {as : List α} {e : ε} (h : as.mapM f = .error e) :
    ∃ a ∈ as, f a = .error e := by
  induction as with
  | nil => cases h
  | cons a as ih =>
    rw [List.mapM_cons] at h
    rcases bind_eq_error h with h | ⟨b, -, h⟩
    · exact ⟨a, List.mem_cons_self, h⟩
    rcases bind_eq_error h with h | ⟨bs, -, h⟩
    · obtain ⟨c, hc, h⟩ := ih h
      exact ⟨c, List.mem_cons_of_mem a hc, h⟩
    · cases h

/-- Something can be made of all items if it can be made of each. -/
theorem mapM_ok_iff {f : α → Except ε β} {as : List α} :
    (∃ bs, as.mapM f = .ok bs) ↔ ∀ a ∈ as, ∃ b, f a = .ok b := by
  constructor
  · rintro ⟨bs, h⟩
    have hall := mapM_ok h
    clear h
    induction hall with
    | nil => exact fun a ha ↦ absurd ha List.not_mem_nil
    | cons hb _ ih => exact List.forall_mem_cons.mpr ⟨⟨_, hb⟩, ih⟩
  · intro h
    cases hbs : as.mapM f with
    | ok bs => exact ⟨bs, rfl⟩
    | error e =>
      obtain ⟨a, ha, he⟩ := mapM_error hbs
      obtain ⟨b, hb⟩ := h a ha
      rw [hb] at he
      cases he

end TextScore

namespace TextScore.Noted

/-! ## What holds of all that a computation yields and notes

`P` is asked of the notes before as well, so that two steps compose without a word about the order
of the notes. -/

variable {ν μ α β σ : Type}

/-- `P` holds of all that is noted, and `Q` of the value. -/
structure Ensures (P : ν → Prop) (Q : α → Prop) (x : Noted ν α) : Prop where
  /-- Behind notes of which `P` holds only such notes are taken. -/
  run : ∀ ns, (∀ n ∈ ns, P n) → match x ns with
    | .ok a ms => Q a ∧ ∀ n ∈ ms, P n
    | .error _ ms => ∀ n ∈ ms, P n

namespace Ensures

variable {P : ν → Prop} {Q : α → Prop} {R : β → Prop}

theorem pure {a : α} (h : Q a) : Ensures P Q (Pure.pure a : Noted ν α) := ⟨fun _ hns ↦ ⟨h, hns⟩⟩

theorem note {n : ν} (h : P n) : Ensures P (fun _ ↦ True) (TextScore.note n) := by
  refine ⟨fun ns hns ↦ ?_⟩
  refine ⟨trivial, fun m hm ↦ ?_⟩
  rcases Array.mem_push.mp hm with hm | rfl
  · exact hns m hm
  · exact h

theorem fail (f : Fault) : Ensures P Q (TextScore.fail f : Noted ν α) := ⟨fun _ hns ↦ hns⟩

theorem ofExcept {x : Except Fault α} (h : ∀ a, x = .ok a → Q a) :
    Ensures P Q (Noted.ofExcept x : Noted ν α) := by
  cases x with
  | ok a => exact pure (h a rfl)
  | error f => exact fail f

theorem bind {x : Noted ν α} {f : α → Noted ν β} (hx : Ensures P Q x)
    (hf : ∀ a, Q a → Ensures P R (f a)) : Ensures P R (x >>= f) := by
  refine ⟨fun ns hns ↦ ?_⟩
  have h := hx.run ns hns
  rw [bind_apply]
  cases hrun : x ns with
  | ok a ms =>
    rw [hrun] at h
    exact (hf a h.1).run ms h.2
  | error e ms =>
    rw [hrun] at h
    exact h

theorem foldlM {P : ν → Prop} {Q : σ → Prop} {f : σ → α → Noted ν σ} {as : List α}
    (hf : ∀ s, ∀ a ∈ as, Q s → Ensures P Q (f s a)) {s : σ} (hs : Q s) :
    Ensures P Q (as.foldlM f s) := by
  induction as generalizing s with
  | nil => exact pure hs
  | cons a as ih =>
    rw [List.foldlM_cons]
    refine bind (hf s a List.mem_cons_self hs) fun s hs ↦ ?_
    exact ih (fun s b hb ↦ hf s b (List.mem_cons_of_mem a hb)) hs

theorem forM {f : α → Noted ν Unit} {as : List α}
    (hf : ∀ a ∈ as, Ensures P (fun _ ↦ True) (f a)) : Ensures P (fun _ ↦ True) (as.forM f) := by
  induction as with
  | nil => exact pure trivial
  | cons a as ih =>
    rw [List.forall_mem_cons] at hf
    exact bind hf.1 fun _ _ ↦ ih hf.2

theorem mapNotes {P' : μ → Prop} {g : ν → μ} (hg : ∀ n, P n → P' (g n)) {x : Noted ν α}
    (hx : Ensures P Q x) : Ensures P' Q (x.mapNotes g) := by
  refine ⟨fun ns hns ↦ ?_⟩
  have h := hx.run #[] fun n hn ↦ absurd hn (Array.not_mem_empty n)
  have hall {ms : Array ν} (hms : ∀ n ∈ ms, P n) : ∀ n ∈ ns ++ ms.map g, P' n := by
    intro n hn
    rcases Array.mem_append.mp hn with hn | hn
    · exact hns n hn
    · obtain ⟨m, hm, rfl⟩ := Array.mem_map.mp hn
      exact hg m (hms m hm)
  rw [Noted.mapNotes, EStateM.run]
  cases hrun : x #[] with
  | ok a ms =>
    rw [hrun] at h
    exact ⟨h.1, hall h.2⟩
  | error e ms =>
    rw [hrun] at h
    exact hall h

/-- What a whole computation comes to. -/
theorem outcome {x : Noted ν α} (h : Ensures P Q x) :
    (∀ a, x.value = .ok a → Q a) ∧ ∀ n ∈ x.outcome.2, P n := by
  have hx := h.run #[] fun n hn ↦ absurd hn (Array.not_mem_empty n)
  rw [Noted.value, outcome_eq_ofResult]
  cases hrun : x #[] with
  | ok a ms =>
    rw [hrun] at hx
    refine ⟨?_, hx.2⟩
    rintro _ ⟨⟩
    exact hx.1
  | error e ms =>
    rw [hrun] at hx
    exact ⟨fun _ ha ↦ (by cases ha), hx⟩

end Ensures

end TextScore.Noted
