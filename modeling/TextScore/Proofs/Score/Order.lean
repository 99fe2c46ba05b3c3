import TextScore.Proofs.Number.Value
import TextScore.Score.Basic

/-!
# The order of time

The notes of a score stand in the order of their starts.  The sort is stable, so that it does not
matter whether some of the notes are picked out before or after it, as long as all starts are
numbers.

This is what carries statements from the timeline to the score.  That an instrument plays the same
whatever the others do is shown of the notes as they are emitted; in a score its notes stand among
those of the others, and they are in the same order there as if they had been sorted alone.

The comparison that the program sorts by is that of doubles, which is no order if there is one among
them that is no number.  Where all are numbers it is the order of values, which is total and
transitive, and library lemmas on sorting apply.

## What is here

* `filter_mergeSort` — a stable sort and a filter commute.
* `NoteEvent.mergeSort_notAfter_eq` — sorting by doubles and by their values.
* `NoteEvent.filter_mergeSort_notAfter` — the same for notes.
* `NoteEvent.forall₂_mergeSort_notAfter` — notes with the same starts come in the same order.
-/

set_option autoImplicit false

namespace TextScore

open Number

/-! ## Sorting and filtering

The induction is on the list that is sorted: one item more is put behind all items that come before
it in order, and in front of all others. -/

section

variable {α : Type} {le : α → α → Bool}

/-- A list is cut in only one way where a condition starts to hold. -/
theorem append_inj_of_starts {q : α → Bool} {as bs cs ds : List α} (h : as ++ bs = cs ++ ds)
    (has : ∀ a ∈ as, q a = false) (hbs : ∀ b ∈ bs, q b = true) (hcs : ∀ c ∈ cs, q c = false)
    (hds : ∀ d ∈ ds, q d = true) : as = cs ∧ bs = ds := by
  have hsplit : ∀ {xs ys : List α}, (∀ x ∈ xs, q x = false) → (∀ y ∈ ys, q y = true) →
      (xs ++ ys).filter q = ys ∧ (xs ++ ys).filter (!q ·) = xs := fun {xs ys} hxs hys ↦ by
    rw [List.filter_append, List.filter_append, List.filter_eq_nil_iff.mpr (by simpa using hxs),
      List.filter_eq_self.mpr hys, List.filter_eq_self.mpr (by simpa using hxs),
      List.filter_eq_nil_iff.mpr (by simpa using hys), List.nil_append, List.append_nil]
    exact ⟨rfl, rfl⟩
  obtain ⟨hb, ha⟩ := hsplit has hbs
  obtain ⟨hd, hc⟩ := hsplit hcs hds
  rw [h] at hb ha
  exact ⟨ha.symm.trans hc, hb.symm.trans hd⟩

/-- Whether items are picked out before or after a stable sort does not matter. -/
theorem filter_mergeSort (trans : ∀ a b c, le a b = true → le b c = true → le a c = true)
    (total : ∀ a b, (le a b || le b a) = true) (p : α → Bool) (as : List α) :
    (as.mergeSort le).filter p = (as.filter p).mergeSort le := by
  -- The part behind the first item's place in a sorted list.
  have hbehind {a : α} {as bs cs : List α} (h : (a :: as).mergeSort le = bs ++ a :: cs) :
      ∀ c ∈ cs, le a c = true := by
    have hsorted := List.pairwise_mergeSort trans total (a :: as)
    rw [h] at hsorted
    exact (List.pairwise_cons.mp (List.pairwise_append.mp hsorted).2.1).1
  induction as with
  | nil => rw [List.mergeSort_nil, List.filter_nil, List.mergeSort_nil]
  | cons a as ih =>
    obtain ⟨bs, cs, h, h', hbs⟩ := List.mergeSort_cons trans total a as
    rw [h', List.filter_append] at ih
    rw [h, List.filter_append]
    by_cases ha : p a = true
    · rw [List.filter_cons_of_pos ha, List.filter_cons_of_pos ha]
      obtain ⟨bs', cs', k, k', hbs'⟩ := List.mergeSort_cons trans total a (as.filter p)
      rw [k'] at ih
      obtain ⟨hb, hc⟩ := append_inj_of_starts (q := le a) ih
        (fun b hb ↦ by simpa using hbs b (List.mem_filter.mp hb).1)
        (fun c hc ↦ hbehind h c (List.mem_filter.mp hc).1)
        (fun b hb ↦ by simpa using hbs' b hb) (hbehind k)
      rw [k, hb, hc]
    · rw [List.filter_cons_of_neg ha, List.filter_cons_of_neg ha, ih]

end

/-! ## Notes

`notAfter` compares doubles, `startsBy` compares values. -/

namespace NoteEvent

/-- The order of notes by the values of their starts. -/
def startsBy (a b : NoteEvent) : Bool := value a.start ≤ value b.start

theorem notAfter_eq_startsBy {a b : NoteEvent} (ha : a.start.isNaN = false)
    (hb : b.start.isNaN = false) : a.notAfter b = a.startsBy b := by
  rw [notAfter, startsBy, ← decide_not, decide_eq_decide, lt_iff hb ha, not_lt]

theorem startsBy_trans {a b c : NoteEvent} (hab : a.startsBy b = true)
    (hbc : b.startsBy c = true) : a.startsBy c = true := by
  rw [startsBy, decide_eq_true_eq] at *
  exact hab.trans hbc

theorem startsBy_total (a b : NoteEvent) : (a.startsBy b || b.startsBy a) = true := by
  rw [startsBy, startsBy, Bool.or_eq_true, decide_eq_true_eq, decide_eq_true_eq]
  exact le_total _ _

/-- If all starts are numbers, notes are sorted by the values of their starts. -/
theorem mergeSort_notAfter_eq {es : List NoteEvent} (h : ∀ e ∈ es, e.start.isNaN = false) :
    es.mergeSort notAfter = es.mergeSort startsBy := by
  have := List.map_mergeSort (f := id) (r := notAfter) (s := startsBy) (l := es)
    fun a ha b hb ↦ notAfter_eq_startsBy (h a ha) (h b hb)
  rwa [List.map_id, List.map_id] at this

/-- If all starts are numbers, some of the notes are in the same order among all others as they are
alone. -/
theorem filter_mergeSort_notAfter {es : List NoteEvent}
    (h : ∀ e ∈ es, e.start.isNaN = false) (p : NoteEvent → Bool) :
    (es.mergeSort notAfter).filter p = (es.filter p).mergeSort notAfter := by
  rw [mergeSort_notAfter_eq h, mergeSort_notAfter_eq fun e he ↦ h e (List.mem_filter.mp he).1]
  refine filter_mergeSort ?_ startsBy_total p es
  exact fun _ _ _ hab hbc ↦ startsBy_trans hab hbc

/-- Notes that have the same starts pair by pair are put in the same order. -/
theorem forall₂_mergeSort_notAfter {R : NoteEvent → NoteEvent → Prop} {es es' : List NoteEvent}
    (hstart : ∀ n n', R n n' → n'.start = n.start) (h : List.Forall₂ R es es') :
    List.Forall₂ R (es.mergeSort notAfter) (es'.mergeSort notAfter) := by
  have hzip := h.length_eq
  have hpairs (x : NoteEvent × NoteEvent) (hx : x ∈ es.zip es') : R x.1 x.2 :=
    (List.forall₂_iff_zip.mp h).2 hx
  have hfst := List.map_mergeSort (r := fun x y : NoteEvent × NoteEvent ↦ x.1.notAfter y.1)
    (s := notAfter) (f := Prod.fst) (l := es.zip es') fun _ _ _ _ ↦ rfl
  have hsnd := List.map_mergeSort (r := fun x y : NoteEvent × NoteEvent ↦ x.1.notAfter y.1)
    (s := notAfter) (f := Prod.snd) (l := es.zip es') fun x hx y hy ↦ by
      rw [notAfter, notAfter, hstart _ _ (hpairs x hx), hstart _ _ (hpairs y hy)]
  rw [List.map_fst_zip hzip.le] at hfst
  rw [List.map_snd_zip hzip.ge] at hsnd
  rw [← hfst, ← hsnd, List.forall₂_map_left_iff, List.forall₂_map_right_iff, List.forall₂_same]
  exact fun x hx ↦ hpairs x (List.mem_mergeSort.mp hx)

end NoteEvent

end TextScore
