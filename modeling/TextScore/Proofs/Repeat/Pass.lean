import Mathlib.Logic.Function.Iterate
import TextScore.Proofs.Reports
import TextScore.Proofs.Text.Class
import TextScore.Proofs.Text.Scan
import TextScore.Proofs.Text.Words
import TextScore.Repeat

/-!
# Passes over repeat groups

Repeat groups are expanded in passes.  A pass can make a text much longer, and what it writes can be
the count of another group, so the length of a text says nothing about how many passes are to come.
Its opening braces do: a pass removes one for each group that it finds, and it adds none.

The same count bounds the length.  Each group that is expanded costs an opening brace and adds at
most `maxLength` characters, so the length together with `maxLength` times the number of opening
braces never grows.  That is `weight_pass_le`, and it is an invariant of the passes that no single
pass has to know about.

## What is here

* `Group.Starts`, `HasGroup` — what a repeat group is, said without reading one.
* `innermost`, `pass` — the groups that a pass finds, and the text behind it.
* `weight_pass_le` — a pass trades an opening brace for at most `maxLength` characters.
* `expandWithin_eq` — one pass more than there are opening braces is enough.
* `expand_settles` — the passes come to an end, at a text without groups and not too long.

One thing can stop the passes: a count that is too long to be read.  Since a pass can write new
counts, the condition is on all texts that the passes go through, and not on the first one alone.
-/

set_option autoImplicit false

namespace TextScore.Repeat

open Text Number

/-! ## Groups as they are written

`Starts` says what a group looks like, with all of its parts given.  That the reader finds one just
where there is one is `read?_eq_none_iff`; what comes after uses either side. -/

namespace Group

theorem anywhere : recogniser.Anywhere := fun _ _ ↦ rfl

/-- A repeat group stands at the front of the text: a body without braces in braces, a times mark
and a count, with or without blanks before and behind the mark. -/
inductive Starts : List Char → Prop
  | mk {body gap gap' rest : List Char} {mark d : Char} (hbody : ∀ c ∈ body, isBrace c = false)
      (hgap : ∀ c ∈ gap, isBlank c = true) (hmark : isTimes mark = true)
      (hgap' : ∀ c ∈ gap', isBlank c = true) (hdigit : isDigit d = true) :
      Starts ('{' :: (body ++ '}' :: (gap ++ mark :: (gap' ++ d :: rest))))

theorem isBlank_of_isTimes {c : Char} (h : isTimes c = true) : isBlank c = false := by
  simp only [isTimes, Bool.or_eq_true, beq_iff_eq] at h
  rcases h with (rfl | rfl) | rfl <;> decide

/-- The count behind a closing brace. -/
theorem readCount?_written {gap gap' count rest : List Char} {mark : Char}
    (hgap : ∀ c ∈ gap, isBlank c = true) (hmark : isTimes mark = true)
    (hgap' : ∀ c ∈ gap', isBlank c = true) (hcount : IsNumeral count)
    (hrest : ∀ c ∈ rest.head?, isDigit c = false) :
    readCount? (gap ++ mark :: (gap' ++ (count ++ rest))) = some (count, rest) := by
  have hmark' : (gap ++ mark :: (gap' ++ (count ++ rest))).dropWhile isBlank =
      mark :: (gap' ++ (count ++ rest)) :=
    (span_append hgap fun c hc ↦ by cases hc; exact isBlank_of_isTimes hmark).2
  have hcount' : (gap' ++ (count ++ rest)).dropWhile isBlank = count ++ rest :=
    (span_append hgap' (hcount.isBlank_head? rest)).2
  obtain ⟨htake, hdrop⟩ := hcount.takeWhile hrest
  have hne : count.isEmpty = false := by
    rw [List.isEmpty_eq_false_iff]
    exact hcount.ne_nil
  rw [readCount?, hmark']
  dsimp only
  rw [hcount', htake, hdrop, hmark, hne]
  rfl

/-- A body without braces ends at the first brace. -/
theorem read?_body {body : List Char} (hbody : ∀ c ∈ body, isBrace c = false) (t : List Char) :
    read? ('{' :: (body ++ '}' :: t)) =
      (readCount? t).map fun p ↦ (⟨body, p.1, hbody⟩, p.2) := by
  have hspan : (body ++ '}' :: t).takeWhile (fun c ↦ !isBrace c) = body ∧
      (body ++ '}' :: t).dropWhile (fun c ↦ !isBrace c) = '}' :: t :=
    span_append (fun c hc ↦ by simp [hbody c hc]) fun c hc ↦ by cases hc; rfl
  rw [read?]
  split
  case h_1 u hu =>
    rw [hspan.2] at hu
    cases hu
    simp only [hspan.1]
  case h_2 hu => exact absurd hspan.2 (hu t)

theorem starts_of_readCount? {t count rest : List Char} (h : readCount? t = some (count, rest)) :
    ∃ gap mark gap' d r, t = gap ++ mark :: (gap' ++ d :: r) ∧
      (∀ c ∈ gap, isBlank c = true) ∧ isTimes mark = true ∧
        (∀ c ∈ gap', isBlank c = true) ∧ isDigit d = true := by
  have hblank (s : List Char) : ∀ c ∈ s.takeWhile isBlank, isBlank c = true :=
    List.all_eq_true.mp List.all_takeWhile
  unfold readCount? at h
  split at h
  case h_1 mark s hs =>
    dsimp only at h
    split at h
    case isTrue hcond =>
      rw [Bool.and_eq_true, Bool.not_eq_true', List.isEmpty_eq_false_iff] at hcond
      cases hr : s.dropWhile isBlank with
      | nil => exact absurd (by rw [hr]; rfl) hcond.2
      | cons d r =>
        refine ⟨t.takeWhile isBlank, mark, s.takeWhile isBlank, d, r, ?_, hblank t, hcond.1,
          hblank s, ?_⟩
        · rw [← hr, List.takeWhile_append_dropWhile, ← hs, List.takeWhile_append_dropWhile]
        · by_contra hd
          rw [hr, List.takeWhile_cons_of_neg hd] at hcond
          exact hcond.2 rfl
    case isFalse => cases h
  case h_2 => cases h

/-- Nothing is read just where no group stands. -/
theorem read?_eq_none_iff {s : List Char} : read? s = none ↔ ¬Starts s := by
  constructor
  · rintro h ⟨hbody, hgap, hmark, hgap', hdigit⟩
    rename_i body gap gap' rest mark d
    have hcount : IsNumeral ((d :: rest).takeWhile isDigit) :=
      ⟨by rw [List.takeWhile_cons_of_pos hdigit]; exact List.cons_ne_nil _ _,
        List.all_eq_true.mp List.all_takeWhile⟩
    have hrest : ∀ c ∈ ((d :: rest).dropWhile isDigit).head?, isDigit c = false := by
      intro c hc
      have hnot := List.head?_dropWhile_not isDigit (d :: rest)
      rwa [hc] at hnot
    have hread := readCount?_written hgap hmark hgap' hcount hrest
    rw [List.takeWhile_append_dropWhile] at hread
    rw [read?_body hbody, hread] at h
    cases h
  · intro h
    rw [← Option.not_isSome_iff_eq_none, Option.isSome_iff_exists]
    rintro ⟨⟨g, r⟩, hread⟩
    -- what is read has the form that it was read from
    refine h ?_
    unfold read? at hread
    split at hread
    case h_1 s =>
      split at hread
      case h_1 t ht =>
        obtain ⟨p, hp, -⟩ := Option.map_eq_some_iff.mp hread
        obtain ⟨gap, mark, gap', d, rest, rfl, hgap, hmark, hgap', hdigit⟩ :=
          starts_of_readCount? hp
        rw [← s.takeWhile_append_dropWhile (p := fun c ↦ !isBrace c), ht]
        refine .mk (fun c hc ↦ ?_) hgap hmark hgap' hdigit
        simpa using List.all_eq_true.mp List.all_takeWhile c hc
      case h_2 => cases hread
    case h_2 => cases hread

end Group

/-! ## One pass

A pass goes through the text from the left and is described by what stands at the front: a group, or
a character that starts none. -/

/-- The groups that a pass finds: those with no group inside. -/
def innermost (s : List Char) : List Group := found (Group.recogniser.pieces s)

/-- The text behind a pass. -/
def pass (s : List Char) : List Char := expandInnermost (Group.recogniser.pieces s)

/-- There is a repeat group somewhere in the text. -/
def HasGroup (s : List Char) : Prop := ∃ t, t <:+ s ∧ Group.Starts t

section

variable {s r : List Char} {c : Char} {g : Group}

theorem pass_of_some (h : Group.read? s = some (g, r)) : pass s = g.expansion ++ pass r := by
  rw [pass, Recogniser.pieces_of_some (p := Group.recogniser) h, expandInnermost, fill_found]
  rfl

theorem innermost_of_some (h : Group.read? s = some (g, r)) : innermost s = g :: innermost r := by
  rw [innermost, Recogniser.pieces_of_some (p := Group.recogniser) h, found_found]
  rfl

theorem pass_of_none (h : Group.read? (c :: s) = none) : pass (c :: s) = c :: pass s := by
  rw [pass, Recogniser.pieces_of_none Group.anywhere h, expandInnermost, fill_plain]
  rfl

theorem innermost_of_none (h : Group.read? (c :: s) = none) :
    innermost (c :: s) = innermost s := by
  rw [innermost, Recogniser.pieces_of_none Group.anywhere h, found_plain]
  rfl

/-- Without an opening brace nothing happens. -/
theorem pass_append (h : ∀ c ∈ s, c ≠ '{') (r : List Char) :
    pass (s ++ r) = s ++ pass r ∧ innermost (s ++ r) = innermost r := by
  induction s with
  | nil => exact ⟨rfl, rfl⟩
  | cons c s ih =>
    rw [List.forall_mem_cons] at h
    have hread : Group.read? (c :: (s ++ r)) = none := by
      rw [Group.read?.eq_def]
      split
      case h_1 heq => exact absurd (List.cons.inj heq).1 h.1
      case h_2 => rfl
    rw [List.cons_append, pass_of_none hread, innermost_of_none hread, (ih h.2).1, (ih h.2).2]
    exact ⟨rfl, rfl⟩

end

theorem expand_of_innermost_eq_nil {s : List Char} (h : innermost s = []) : expand s = pure s := by
  rw [expand]
  exact dif_pos h

theorem expand_of_innermost_ne_nil {s : List Char} (h : innermost s ≠ []) :
    expand s = (innermost s).forM Group.check >>= fun _ ↦ expand (pass s) := by
  rw [expand]
  exact dif_neg h

/-- A pass finds nothing just if there is no group. -/
theorem innermost_eq_nil_iff {s : List Char} : innermost s = [] ↔ ¬HasGroup s := by
  rw [innermost, Recogniser.found_pieces_eq_nil_iff Group.anywhere, HasGroup, not_exists]
  refine forall_congr' fun t ↦ ?_
  rw [not_and]
  exact imp_congr_right fun _ ↦ Group.read?_eq_none_iff

/-- A pass removes an opening brace for each group that it finds. -/
theorem openings_pass (s : List Char) : openings (pass s) + (innermost s).length = openings s :=
  openings_expandInnermost false s

/-- A pass changes a text just if it finds a group. -/
theorem pass_eq_self_iff {s : List Char} : pass s = s ↔ innermost s = [] := by
  refine ⟨fun h ↦ ?_, Recogniser.fill_pieces_of_found_eq_nil Group.expansion false⟩
  have hopenings := openings_pass s
  rw [h] at hopenings
  exact List.length_eq_zero_iff.mp (by omega)

/-- Passes over a text without groups leave it as it is. -/
theorem iterate_pass_of_innermost_eq_nil {s : List Char} (h : innermost s = []) (i : Nat) :
    pass^[i] s = s :=
  Function.iterate_fixed (pass_eq_self_iff.mpr h) i

/-! ## How long a text can become

The bound is reached only by a text of nothing but groups that fill the room, and it is not meant to
be sharp; what matters is that it depends on the text before the first pass alone. -/

theorem length_joinWith_replicate_le (n : Nat) (s : List Char) :
    (joinWith [' '] (List.replicate n s)).length ≤ n * (s.length + 1) := by
  cases n with
  | zero => exact Nat.zero_le _
  | succ n =>
    rw [List.replicate_succ, joinWith_cons, List.length_append, List.length_flatMap]
    simp [Nat.succ_mul]
    omega

/-- No group is expanded beyond the longest text. -/
theorem Group.length_expansion_le (g : Group) : g.expansion.length ≤ maxLength := by
  calc g.expansion.length ≤ min g.times g.limit * (g.core.length + 1) :=
        length_joinWith_replicate_le _ _
    _ ≤ maxLength / (g.core.length + 1) * (g.core.length + 1) :=
        Nat.mul_le_mul_right _ (Nat.min_le_right _ _)
    _ ≤ maxLength := Nat.div_mul_le_self _ _

/-- A pass trades an opening brace for at most `maxLength` characters. -/
theorem weight_pass_le (s : List Char) :
    (pass s).length + maxLength * openings (pass s) ≤ s.length + maxLength * openings s := by
  have hlength : (pass s).length ≤ s.length + maxLength * (innermost s).length :=
    Recogniser.length_fill_pieces_le Group.anywhere Group.length_expansion_le s
  rw [← openings_pass s, Nat.mul_add]
  omega

/-! ## How many passes there are

The last pass finds nothing, and that is why one more is needed than there are braces. -/

/-- Passes until one leaves the text as it is; `none` if `n` passes are not enough. -/
def expandWithin : Nat → List Char → Noted Problem (Option (List Char))
  | 0, _ => pure none
  | n + 1, s => do
    (innermost s).forM Group.check
    if pass s = s then return some s else expandWithin n (pass s)

/-- One pass more than there are opening braces is enough. -/
theorem expandWithin_eq {n : Nat} {s : List Char} (h : openings s < n) :
    expandWithin n s = some <$> expand s := by
  induction n generalizing s with
  | zero => exact absurd h (Nat.not_lt_zero _)
  | succ n ih =>
    rw [expandWithin]
    by_cases hs : innermost s = []
    · rw [expand_of_innermost_eq_nil hs, hs, if_pos (pass_eq_self_iff.mpr hs), map_pure]
      rfl
    · have hopenings := openings_pass s
      have hpos := List.length_pos_iff.mpr hs
      rw [expand_of_innermost_ne_nil hs, if_neg (mt pass_eq_self_iff.mp hs), map_bind,
        ih (by omega)]

/-! ## The whole expansion -/

theorem Group.appends_check (g : Group) : g.check.Appends := by
  rw [check]
  refine .bind (.ofExcept _) fun n ↦ ?_
  split
  · exact .note _
  · exact .pure _

theorem Group.check_value {g : Group} (h : g.count.length ≤ maxDigits) :
    g.check.value = .ok () := by
  rw [check, readNat, if_neg (Nat.not_lt.mpr h), Noted.value_bind fun n ↦ by
    split
    · exact .note _
    · exact .pure _]
  rw [Noted.value_ofExcept, ok_bind]
  split <;> rfl

theorem appends_forM_check (gs : List Group) : (gs.forM Group.check).Appends := by
  induction gs with
  | nil => exact .pure ()
  | cons g gs ih => exact .bind g.appends_check fun _ ↦ ih

theorem forM_check_value {gs : List Group} (h : ∀ g ∈ gs, g.count.length ≤ maxDigits) :
    (gs.forM Group.check).value = .ok () := by
  induction gs with
  | nil => rfl
  | cons g gs ih =>
    rw [List.forall_mem_cons] at h
    show (g.check >>= fun _ ↦ gs.forM Group.check).value = _
    rw [Noted.value_bind fun _ ↦ appends_forM_check gs, Group.check_value h.1, ok_bind, ih h.2]

/-- A count that is too large is reported. -/
theorem Group.mem_notes_check {g : Group} (h : g.count.length ≤ maxDigits)
    (hlarge : g.limit < g.times) : .repeatTooLarge g.times g.limit ∈ g.check.notes := by
  have hread : (Noted.ofExcept (readNat g.count) : Noted Problem Nat).value = .ok g.times := by
    rw [Noted.value_ofExcept, readNat, if_neg (Nat.not_lt.mpr h)]
    rfl
  rw [check, Noted.notes_bind (fun n ↦ by
    split
    · exact .note _
    · exact .pure _) hread, if_pos hlarge, Noted.notes_note]
  exact Array.mem_append_right _ (Array.mem_singleton.mpr rfl)

/-- What the check of a group reports, the checks of some groups report. -/
theorem mem_notes_forM_check {gs : List Group} (h : ∀ g ∈ gs, g.count.length ≤ maxDigits)
    {g : Group} (hg : g ∈ gs) {n : Problem} (hn : n ∈ g.check.notes) :
    n ∈ (gs.forM Group.check).notes := by
  induction gs with
  | nil => cases hg
  | cons g' gs ih =>
    rw [List.forall_mem_cons] at h
    show n ∈ (g'.check >>= fun _ ↦ gs.forM Group.check).notes
    rw [Noted.notes_bind (fun _ ↦ appends_forM_check gs) (Group.check_value h.1)]
    rcases List.mem_cons.mp hg with rfl | hg
    · exact Array.mem_append_left _ hn
    · exact Array.mem_append_right _ (ih h.2 hg)

theorem appends_expand (s : List Char) : (expand s).Appends := by
  induction s using expand.induct with
  | case1 s ps h =>
    rw [expand, dif_pos h]
    exact .pure _
  | case2 s ps h ih =>
    rw [expand, dif_neg h]
    exact .bind (appends_forM_check _) fun _ ↦ ih

/-- If all counts can be read, the expansion is a text without groups, and each opening brace has
added at most `maxLength` characters. -/
theorem exists_expand {s : List Char}
    (h : ∀ i, ∀ g ∈ innermost (pass^[i] s), g.count.length ≤ maxDigits) :
    ∃ r, (expand s).value = .ok r ∧ innermost r = [] ∧
      r.length ≤ s.length + maxLength * openings s := by
  induction hn : openings s using Nat.strongRecOn generalizing s with
  | ind n ih =>
    by_cases hs : innermost s = []
    · refine ⟨s, ?_, hs, Nat.le_add_right _ _⟩
      rw [expand_of_innermost_eq_nil hs, Noted.value_pure]
    · have hopenings := openings_pass s
      have hpos := List.length_pos_iff.mpr hs
      have hcheck : ((innermost s).forM Group.check).value = .ok () := forM_check_value (h 0)
      obtain ⟨r, hr, hnil, hlength⟩ := ih (openings (pass s)) (by omega) (s := pass s)
        (fun i ↦ h (i + 1)) rfl
      refine ⟨r, ?_, hnil, ?_⟩
      · rw [expand_of_innermost_ne_nil hs, Noted.value_bind fun _ ↦ appends_expand _,
          hcheck, ok_bind, hr]
      · have hweight := weight_pass_le s
        rw [hn] at hweight
        omega

/-- **Expanding settles.**  It takes at most one pass more than there are opening braces.  If no
count is too long to be read, it yields a text without repeat groups, which expands to itself
without any report, and each opening brace has added at most 100000 characters. -/
theorem expand_settles (s : List Char)
    (h : ∀ i, ∀ g ∈ innermost (pass^[i] s), g.count.length ≤ maxDigits) :
    expandWithin (openings s + 1) s = some <$> expand s ∧
      ∃ r, (expand s).value = .ok r ∧ ¬HasGroup r ∧ (expand r).outcome = (.ok r, #[]) ∧
        r.length ≤ s.length + 100000 * s.count '{' := by
  refine ⟨expandWithin_eq (Nat.lt_succ_self _), ?_⟩
  obtain ⟨r, hr, hnil, hlength⟩ := exists_expand h
  refine ⟨r, hr, innermost_eq_nil_iff.mp hnil, ?_, hlength⟩
  rw [expand_of_innermost_eq_nil hnil]
  rfl

/-- The text `{a} x {3}x1 }`: a first pass writes the count that a second one reads. -/
def newCount : List Char := "\x7ba\x7d x \x7b3\x7dx1 \x7d".toList

theorem expand_settles_new_count :
    (∀ i, ∀ g ∈ innermost (pass^[i] newCount), g.count.length ≤ maxDigits) ∧
      expandWithin 3 newCount = some <$> expand newCount ∧
        ∃ r, (expand newCount).value = .ok r ∧ ¬HasGroup r ∧
          (expand r).outcome = (.ok r, #[]) ∧ r.length ≤ 13 + 100000 * 2 := by
  have hcounts : ∀ i, ∀ g ∈ innermost (pass^[i] newCount), g.count.length ≤ maxDigits := by
    have hfirst : ((innermost newCount).all (·.count.length ≤ maxDigits)) = true := by
      decide +kernel
    have hsecond : ((innermost (pass newCount)).all (·.count.length ≤ maxDigits)) = true := by
      decide +kernel
    have hthird : innermost (pass (pass newCount)) = [] := by decide +kernel
    intro i
    match i with
    | 0 => simpa using hfirst
    | 1 => simpa using hsecond
    | i + 2 =>
      rw [Function.iterate_succ_apply, Function.iterate_succ_apply,
        iterate_pass_of_innermost_eq_nil hthird, hthird]
      exact fun g hg ↦ absurd hg List.not_mem_nil
  exact ⟨hcounts, expand_settles _ hcounts⟩

end TextScore.Repeat
