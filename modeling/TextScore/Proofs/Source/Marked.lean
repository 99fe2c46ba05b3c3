import Mathlib.Data.List.Basic
import TextScore.Proofs.Text.Words

/-!
# Marked texts

When parts of a text are left out, every character that is kept has a place in both texts.  A text
with a mark at each character that is kept holds both texts and says which place is which.

The places could be given by a map between positions.  Marks are easier to compose: what one step
keeps is marked once more by the next step, and the result is again a marked text, with no
arithmetic of positions.

## What is here

* `Marked.whole`, `Marked.kept` — the text, and what is kept of it.
* `Marked.andThen` — what is kept is thinned out once more.
* `Marked.KeepsLines` — all line feeds are kept.
* `Keeps` — characters that are kept stay in their lines.
* `Marked.keeps` — they do if all line feeds are kept.

A character stays in its line if there are as many line feeds before it in both texts; so that
nothing is lost before it but characters of the same line, or of lines that are left empty.
-/

set_option autoImplicit false

namespace TextScore.Text

/-- A text with a mark at each character that is kept. -/
abbrev Marked := List (Char × Bool)

namespace Marked

/-- The text. -/
def whole (m : Marked) : List Char := m.map Prod.fst

/-- What is kept of the text. -/
def kept (m : Marked) : List Char := (m.filter Prod.snd).map Prod.fst

/-- What is kept is marked once more. -/
def andThen : Marked → Marked → Marked
  | [], _ => []
  | (c, false) :: m, k => (c, false) :: andThen m k
  | (c, true) :: m, (_, b) :: k => (c, b) :: andThen m k
  | (c, true) :: m, [] => (c, true) :: andThen m []

/-- Lines with line feeds between them, which are kept. -/
def unlines (ms : List Marked) : Marked := [('\n', true)].intercalate ms

/-- All line feeds are kept. -/
def KeepsLines (m : Marked) : Prop := ∀ x ∈ m, x.1 = '\n' → x.2 = true

variable {m k : Marked}

@[simp] theorem whole_append (m k : Marked) : (m ++ k).whole = m.whole ++ k.whole :=
  List.map_append

@[simp] theorem kept_append (m k : Marked) : (m ++ k).kept = m.kept ++ k.kept := by
  rw [kept, List.filter_append, List.map_append]
  rfl

@[simp] theorem whole_cons (x : Char × Bool) (m : Marked) : whole (x :: m) = x.1 :: m.whole := rfl

@[simp] theorem kept_cons_true (c : Char) (m : Marked) : kept ((c, true) :: m) = c :: m.kept := rfl

@[simp] theorem kept_cons_false (c : Char) (m : Marked) : kept ((c, false) :: m) = m.kept := rfl

theorem whole_flatMap {α : Type} (f : α → Marked) (as : List α) :
    whole (as.flatMap f) = as.flatMap fun a ↦ (f a).whole := List.map_flatMap

theorem kept_flatMap {α : Type} (f : α → Marked) (as : List α) :
    kept (as.flatMap f) = as.flatMap fun a ↦ (f a).kept := by
  rw [kept, List.filter_flatMap, List.map_flatMap]
  rfl

theorem whole_mark (f : Char → Bool) (s : List Char) : whole (s.map fun c ↦ (c, f c)) = s := by
  rw [whole, List.map_map]
  exact List.map_id s

theorem kept_mark (f : Char → Bool) (s : List Char) :
    kept (s.map fun c ↦ (c, f c)) = s.filter f := by
  rw [kept, List.filter_map, List.map_map]
  exact List.map_id _

/-! ## One marking after the other -/

@[simp] theorem whole_andThen (m k : Marked) : (m.andThen k).whole = m.whole := by
  induction m, k using andThen.induct <;> simp_all [andThen]

/-- What is kept in the end is what the second marking keeps. -/
theorem kept_andThen (h : k.whole = m.kept) : (m.andThen k).kept = k.kept := by
  induction m, k using andThen.induct with
  | case1 k =>
    obtain rfl := List.map_eq_nil_iff.mp h
    rfl
  | case2 c m k ih => exact ih h
  | case3 c m d b k ih =>
    rw [whole_cons, kept_cons_true] at h
    obtain ⟨rfl, htail⟩ := List.cons.inj h
    cases b with
    | false => exact ih htail
    | true => rw [andThen, kept_cons_true, kept_cons_true, ih htail]
  | case4 c m ih => cases h

/-! ## Line feeds -/

namespace KeepsLines

theorem append (hm : m.KeepsLines) (hk : k.KeepsLines) : (m ++ k).KeepsLines :=
  fun x hx ↦ (List.mem_append.mp hx).elim (hm x) (hk x)

/-- Both markings have to keep them. -/
theorem andThen (h : k.whole = m.kept) (hm : m.KeepsLines) (hk : k.KeepsLines) :
    (m.andThen k).KeepsLines := by
  induction m, k using andThen.induct with
  | case1 k => exact hm
  | case2 c m k ih =>
    obtain ⟨hc, hm⟩ := List.forall_mem_cons.mp hm
    exact List.forall_mem_cons.mpr ⟨hc, ih h hm hk⟩
  | case3 c m d b k ih =>
    rw [whole_cons, kept_cons_true] at h
    obtain ⟨rfl, htail⟩ := List.cons.inj h
    obtain ⟨-, hm⟩ := List.forall_mem_cons.mp hm
    obtain ⟨hc, hk⟩ := List.forall_mem_cons.mp hk
    exact List.forall_mem_cons.mpr ⟨hc, ih htail hm hk⟩
  | case4 c m ih => cases h

theorem count_kept (h : m.KeepsLines) : m.kept.count '\n' = m.whole.count '\n' := by
  induction m with
  | nil => rfl
  | cons x m ih =>
    obtain ⟨hx, hm⟩ := List.forall_mem_cons.mp h
    obtain ⟨c, b⟩ := x
    cases b with
    | true => rw [kept_cons_true, whole_cons, List.count_cons, List.count_cons, ih hm]
    | false =>
      have hc : c ≠ '\n' := fun hc ↦ Bool.false_ne_true (hx hc)
      rw [kept_cons_false, whole_cons, List.count_cons_of_ne hc, ih hm]

end KeepsLines

/-! ## Lines -/

theorem unlines_cons (m : Marked) (ms : List Marked) :
    unlines (m :: ms) = m ++ ms.flatMap (('\n', true) :: ·) := by
  induction ms generalizing m with
  | nil => simp [unlines, List.intercalate]
  | cons k ms ih =>
    have hstep : unlines (m :: k :: ms) = m ++ [('\n', true)] ++ unlines (k :: ms) :=
      List.intercalate_cons_cons
    rw [hstep, ih, List.flatMap_cons, List.append_assoc]
    rfl

theorem whole_unlines (ms : List Marked) :
    (unlines ms).whole = Text.unlines (ms.map whole) := by
  cases ms with
  | nil => rfl
  | cons m ms =>
    rw [unlines_cons, List.map_cons, Text.unlines, joinWith_cons, whole_append,
      whole_flatMap, List.flatMap_map]
    rfl

theorem kept_unlines (ms : List Marked) : (unlines ms).kept = Text.unlines (ms.map kept) := by
  cases ms with
  | nil => rfl
  | cons m ms =>
    rw [unlines_cons, List.map_cons, Text.unlines, joinWith_cons, kept_append,
      kept_flatMap, List.flatMap_map]
    rfl

theorem KeepsLines.unlines {ms : List Marked} (h : ∀ m ∈ ms, m.KeepsLines) :
    (unlines ms).KeepsLines := by
  cases ms with
  | nil => exact fun x hx ↦ absurd hx List.not_mem_nil
  | cons m ms =>
    obtain ⟨hm, hms⟩ := List.forall_mem_cons.mp h
    rw [unlines_cons]
    refine hm.append fun x hx ↦ ?_
    obtain ⟨k, hk, hx⟩ := List.mem_flatMap.mp hx
    rcases List.mem_cons.mp hx with rfl | hx
    · exact fun _ ↦ rfl
    · exact hms k hk x hx

end Marked

/-! ## Places -/

/-- The marks lead from a text to what is kept of it, and characters that are kept stay in their
lines. -/
structure Keeps (text source : List Char) (m : Marked) : Prop where
  /-- The marks are on the text. -/
  whole : m.whole = text
  /-- They mark what is kept. -/
  kept : m.kept = source
  /-- There are as many line feeds as before. -/
  lines : source.count '\n' = text.count '\n'
  /-- As many line feeds as before stand in front of a character that is kept. -/
  place : ∀ (m₁ m₂ : Marked) (c : Char), m = m₁ ++ (c, true) :: m₂ →
    text = m₁.whole ++ c :: m₂.whole ∧ source = m₁.kept ++ c :: m₂.kept ∧
      m₁.kept.count '\n' = m₁.whole.count '\n'

/-- A text stays in its lines if all line feeds are kept. -/
theorem Marked.keeps {m : Marked} (h : m.KeepsLines) : Keeps m.whole m.kept m where
  whole := rfl
  kept := rfl
  lines := h.count_kept
  place m₁ m₂ c hm := by
    have hfront : m₁.KeepsLines := fun x hx ↦ h x (hm ▸ List.mem_append_left _ hx)
    rw [hm, whole_append, kept_append]
    exact ⟨rfl, rfl, hfront.count_kept⟩

end TextScore.Text
