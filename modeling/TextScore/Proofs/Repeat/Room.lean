import Mathlib.Data.Nat.Prime.Basic
import Mathlib.Order.Bounds.Basic
import Mathlib.Tactic.NormNum.Prime
import TextScore.Proofs.Repeat.Phrase

/-!
# How many copies there is room for

A repeat group must not grow beyond `maxLength` characters.  Between copies stand single spaces, and
there is one space less than there are copies, so `n` copies of a text with `m` characters have
`n * (m + 1) - 1` of them: what bounds the count is `(maxLength + 1) / (m + 1)`.  The limit of a
group divides `maxLength` itself.  The two quotients are the same unless `m + 1` divides
`maxLength + 1`, that is, unless copies can fill the room to the last character; then the limit is
one copy short.

The documentation says that a group is cut down only if it would exceed the room, and for nearly all
texts that is so.  As 100001 is 11 times 9091, the exceptions are texts of 0, 10, 9090 and 100000
characters; of those, the largest count for which there is room is cut down by one, and reported.

## What is here

* `Fits`, `isGreatest_fits` — the counts for which there is room, and the largest one.
* `limit_eq` — by how much the limit of a group falls short of it.
* `outcome_expand_repeatText` — what expanding a single group yields and reports.
* `expand_fills` — as many copies are written as there is room for, except of bodies that fill it.
* `cut_fanfare` — a group of exactly `maxLength` characters loses a copy.
-/

set_option autoImplicit false

namespace TextScore.Repeat

open Text Number

variable {s body count : List Char} {n : Nat}

/-! ## Copies that fit

What fits is defined by the length of the copies as they are written, spaces included, and not by a
formula. -/

/-- Copies of a text with single spaces between them. -/
def repeated (s : List Char) (n : Nat) : List Char := joinWith [' '] (List.replicate n s)

/-- There is room for `n` copies. -/
def Fits (s : List Char) (n : Nat) : Prop := (repeated s n).length ≤ maxLength

/-- The spaces are one fewer than the copies. -/
theorem length_repeated (s : List Char) (n : Nat) :
    (repeated s n).length = n * (s.length + 1) - 1 := by
  cases n with
  | zero => simp [repeated, joinWith, List.intercalate]
  | succ n =>
    have hflat : ((List.replicate n s).flatMap ([' '] ++ ·)).length = n * (s.length + 1) := by
      simp [List.length_flatMap]
    rw [repeated, List.replicate_succ, joinWith_cons, List.length_append, hflat, Nat.succ_mul]
    omega

theorem fits_iff : Fits s n ↔ n ≤ (maxLength + 1) / (s.length + 1) := by
  have hpos : 0 < s.length + 1 := by omega
  rw [Nat.le_div_iff_mul_le hpos, Fits, length_repeated]
  omega

theorem isGreatest_fits (s : List Char) :
    IsGreatest {n | Fits s n} ((maxLength + 1) / (s.length + 1)) :=
  ⟨fits_iff.mpr le_rfl, fun _ hn ↦ fits_iff.mp hn⟩

/-! ## The limit

The lengths that fill the room are one less than the divisors of `maxLength + 1`, and there are four
of them. -/

/-- The lengths of the texts with which copies can fill the room to the last character. -/
def fillingLengths : List Nat := [0, 10, 9090, 100000]

theorem dvd_iff_mem_fillingLengths {m : Nat} :
    m + 1 ∣ maxLength + 1 ↔ m ∈ fillingLengths := by
  have hfactors : maxLength + 1 = 11 * 9091 := rfl
  rw [hfactors]
  constructor
  · intro h
    obtain ⟨a, b, ha, hb, hab⟩ := (Nat.dvd_mul).mp h
    have h11 : Nat.Prime 11 := by norm_num
    have h9091 : Nat.Prime 9091 := by norm_num
    rcases (Nat.dvd_prime h11).mp ha with rfl | rfl <;>
      rcases (Nat.dvd_prime h9091).mp hb with rfl | rfl <;>
      simp [fillingLengths] <;> omega
  · intro h
    simp only [fillingLengths, List.mem_cons, List.not_mem_nil, or_false] at h
    rcases h with rfl | rfl | rfl | rfl <;> decide

/-- The limit of a group is the largest count that fits, or one less if the copies would fill the
room. -/
theorem limit_eq (m : Nat) :
    maxLength / (m + 1) = if m ∈ fillingLengths then (maxLength + 1) / (m + 1) - 1
      else (maxLength + 1) / (m + 1) := by
  rw [Nat.succ_div]
  by_cases h : m ∈ fillingLengths <;> simp [h, dvd_iff_mem_fillingLengths]

/-! ## Expanding a single group -/

/-- A repeat group with the digits of its count. -/
def repeatText (body : List Char) (times : Times) (count : List Char) : List Char :=
  '{' :: (inside body ++ '}' :: ' ' :: times.mark :: ' ' :: count)

instance (s : List Char) : Decidable (Braceless s) :=
  decidable_of_iff ((s.all fun c ↦ !isBrace c) = true) (by simp [Braceless])

theorem trim_inside (s : List Char) : trim (inside s) = trim s := by
  have hspace : ∀ c ∈ [' '], isBlank c = true := List.forall_mem_singleton.mpr (by decide)
  exact (trim_blank_append hspace (s ++ [' '])).trans (trim_append_blank hspace s)

/-- The text of a single group is read as one. -/
theorem read?_repeatText (hbody : Braceless (inside body)) (times : Times)
    (hcount : IsNumeral count) :
    Group.read? (repeatText body times count) = some (⟨inside body, count, hbody⟩, []) := by
  have hspace : ∀ c ∈ [' '], isBlank c = true := List.forall_mem_singleton.mpr (by decide)
  have hmark : Group.isTimes times.mark = true := by cases times <;> decide
  have hread : Group.readCount? (' ' :: times.mark :: ' ' :: (count ++ [])) = some (count, []) :=
    Group.readCount?_written hspace hmark hspace hcount fun c hc ↦ by simp at hc
  rw [List.append_nil] at hread
  rw [repeatText, Group.read?_body hbody, hread, Option.map_some]

/-- What the check of a group reports. -/
theorem Group.outcome_check {g : Group} (h : g.count.length ≤ maxDigits) :
    g.check.outcome =
      (.ok (), if g.times ≤ g.limit then #[] else #[.repeatTooLarge g.times g.limit]) := by
  have hread : readNat g.count = .ok g.times := by
    rw [readNat, if_neg (Nat.not_lt.mpr h)]
    rfl
  rw [check, hread]
  by_cases hlimit : g.times ≤ g.limit
  · simp [Noted.ofExcept, Noted.outcome, hlimit, Nat.not_lt.mpr hlimit]
  · simp [Noted.ofExcept, Nat.not_le.mp hlimit, hlimit]
    rfl

/-- Where no brace opens, no group is found. -/
theorem innermost_eq_nil_of_openings {s : List Char} (h : openings s = 0) : innermost s = [] := by
  have hpass := openings_pass s
  exact List.length_eq_zero_iff.mp (by omega)

/-- A text that is a single group without groups inside is written out, and that is all. -/
theorem outcome_expand_of_read? {s : List Char} {g : Group} (hread : Group.read? s = some (g, []))
    (hlength : g.count.length ≤ maxDigits) :
    (expand s).outcome = (.ok g.expansion,
      if g.times ≤ g.limit then #[] else #[.repeatTooLarge g.times g.limit]) := by
  have hempty : innermost [] = [] := innermost_eq_nil_of_openings rfl
  have hfinds : innermost s = [g] := by rw [innermost_of_some hread, hempty]
  have hpass : pass s = g.expansion := by
    rw [pass_of_some hread, pass_eq_self_iff.mpr hempty, List.append_nil]
  have hplain : expand g.expansion = pure g.expansion :=
    expand_of_innermost_eq_nil (innermost_eq_nil_of_openings g.openings_expansion)
  have hcheck : [g].forM Group.check = g.check := bind_pure g.check
  have houtcome := Group.outcome_check hlength
  rw [Noted.outcome_eq, Prod.mk.injEq] at houtcome
  rw [expand_of_innermost_ne_nil (by simp [hfinds]), hfinds, hpass, hplain, hcheck,
    Noted.outcome_bind fun _ ↦ .pure _, houtcome.1, houtcome.2]
  simp [Noted.notes, Noted.outcome]

/-- A single group is written out up to its limit, and cut down it is reported. -/
theorem outcome_expand_repeatText (hbody : Braceless body) (times : Times)
    (hcount : IsNumeral count) (hlength : count.length ≤ maxDigits) :
    (expand (repeatText body times count)).outcome =
      if digitsValue count ≤ maxLength / ((trim body).length + 1) then
        (.ok (repeated (trim body) (digitsValue count)), #[])
      else
        (.ok (repeated (trim body) (maxLength / ((trim body).length + 1))),
          #[.repeatTooLarge (digitsValue count) (maxLength / ((trim body).length + 1))]) := by
  rw [outcome_expand_of_read? (read?_repeatText hbody.inside times hcount) hlength,
    Group.expansion, Group.times, Group.limit, Group.core, trim_inside, ← repeated]
  split
  case isTrue h => rw [Nat.min_eq_left h]
  case isFalse h => rw [Nat.min_eq_right (by omega)]

/-! ## Cut only when it must be -/

/-- A group is written out in full, without any report, if there is room for all of its copies, and
else as often as there is room for, with one warning that names both counts: with one copy less if
its copies would fill the room to the last character. -/
theorem expand_fills (hbody : Braceless body) (times : Times) (hcount : IsNumeral count)
    (hlength : count.length ≤ maxDigits) :
    ∃ most, IsGreatest {n | Fits (trim body) n} most ∧
      let limit := if (trim body).length ∈ fillingLengths then most - 1 else most
      (expand (repeatText body times count)).outcome =
        if digitsValue count ≤ limit then
          (.ok (repeated (trim body) (digitsValue count)), #[])
        else
          (.ok (repeated (trim body) limit), #[.repeatTooLarge (digitsValue count) limit]) := by
  refine ⟨_, isGreatest_fits (trim body), ?_⟩
  dsimp only
  rw [← limit_eq]
  exact outcome_expand_repeatText hbody times hcount hlength

/-- A body with which copies cannot fill the room: a count of 40000 is cut down to 33333. -/
theorem expand_fills_quarter :
    Braceless "c4".toList ∧ IsNumeral "40000".toList ∧ "40000".toList.length ≤ maxDigits ∧
      ∃ most, IsGreatest {n | Fits (trim "c4".toList) n} most ∧
        let limit := if (trim "c4".toList).length ∈ fillingLengths then most - 1 else most
        (expand (repeatText "c4".toList .cross "40000".toList)).outcome =
          if digitsValue "40000".toList ≤ limit then
            (.ok (repeated (trim "c4".toList) (digitsValue "40000".toList)), #[])
          else
            (.ok (repeated (trim "c4".toList) limit),
              #[.repeatTooLarge (digitsValue "40000".toList) limit]) := by
  have hbody : Braceless "c4".toList := by decide
  have hcount : IsNumeral "40000".toList := ⟨by decide, List.all_eq_true.mp (by decide)⟩
  exact ⟨hbody, hcount, by decide, expand_fills hbody .cross hcount (by decide)⟩

/-- Ten characters, so that 9091 copies with the spaces between them have `maxLength`. -/
def fanfare : List Char := "c4:16 d4:8".toList

/-- There is room for all copies, yet one of them is cut off and a warning is given. -/
theorem cut_fanfare :
    repeatText fanfare .cross "9091".toList = "{ c4:16 d4:8 } x 9091".toList ∧
      Braceless fanfare ∧ (repeated (trim fanfare) 9091).length = maxLength ∧
      (expand (repeatText fanfare .cross "9091".toList)).outcome =
        (.ok (repeated (trim fanfare) 9090), #[.repeatTooLarge 9091 9090]) ∧
      (expand (repeatText fanfare .cross "9091".toList)).outcome ≠
        (.ok (repeated (trim fanfare) 9091), #[]) := by
  have hbody : Braceless fanfare := by decide
  have hcount : IsNumeral "9091".toList := ⟨by decide, List.all_eq_true.mp (by decide)⟩
  have hlength : (repeated (trim fanfare) 9091).length = maxLength := by
    rw [length_repeated]
    decide
  have houtcome := outcome_expand_repeatText hbody .cross hcount (by decide)
  have hlimit : maxLength / ((trim fanfare).length + 1) = 9090 := by decide
  have htimes : digitsValue "9091".toList = 9091 := by decide
  rw [hlimit, htimes, if_neg (by decide)] at houtcome
  refine ⟨rfl, hbody, hlength, houtcome, ?_⟩
  rw [houtcome]
  simp

end TextScore.Repeat
