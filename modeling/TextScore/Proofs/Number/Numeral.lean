import Mathlib.Data.List.Induction
import Mathlib.Data.Nat.Digits.Defs
import TextScore.Number.Numeral

/-!
# Numerals are read back

A number that is short enough to be written is what its numeral reads as, and a numeral has nothing
around it or between its digits that a reader would have to drop.

Reading is more generous than writing.  It takes blanks around a numeral, a plus sign, underscores
between digits and the digits of all scripts; written are digits in ASCII and a minus sign.
Numerals of more than 4300 digits are neither read nor written.  So the two are inverse in one
direction, and in the other there is only that what is read can be written again.

## What is here

* `digitsValue_digits` — the digits of a number stand for it.
* `readInt_signedDigits` — a written number is read back.
* `isWritable_of_readInt` — a number that is read can be written.
* `trimNumeral_signedDigits`, `dropUnderscores?_signedDigits` — there is nothing to drop.
* `readInt_eq_error` — a numeral that cannot be read is too long.
-/

set_option autoImplicit false

namespace TextScore.Number

open Text

/-! ## Digits -/

theorem digitValue?_digitChar : ∀ d < 10, digitValue? (Nat.digitChar d) = some d := by decide

/-- Digits are written in ASCII. -/
theorem exists_digitChar {n : Nat} : ∀ c ∈ digits n, ∃ d < 10, Nat.digitChar d = c := by
  induction n using Nat.strongRecOn with
  | ind n ih =>
    intro c hc
    rw [digits] at hc
    by_cases hn : n < 10
    · rw [Nat.toDigits_of_lt_base hn, List.mem_singleton] at hc
      exact ⟨n, hn, hc.symm⟩
    · have hlast : n % 10 < 10 := Nat.mod_lt n (by decide)
      rw [← Nat.div_add_mod n 10,
        ← Nat.toDigits_append_toDigits (by decide) (by omega) hlast, List.mem_append] at hc
      rcases hc with hc | hc
      · exact ih (n / 10) (by omega) c hc
      · rw [Nat.toDigits_of_lt_base hlast, List.mem_singleton] at hc
        exact ⟨n % 10, hlast, hc.symm⟩

theorem isDigit_of_mem_digits {n : Nat} {c : Char} (h : c ∈ digits n) : isDigit c = true := by
  obtain ⟨d, hd, rfl⟩ := exists_digitChar c h
  rw [isDigit, digitValue?_digitChar d hd, Option.isSome_some]

theorem digits_ne_nil (n : Nat) : digits n ≠ [] := Nat.toDigits_ne_nil

theorem digitsValue_concat (ds : List Char) (c : Char) :
    digitsValue (ds ++ [c]) = appendDigit (digitsValue ds) c := by
  rw [digitsValue, List.foldl_append]
  rfl

/-- The digits of a number stand for it. -/
theorem digitsValue_digits (n : Nat) : digitsValue (digits n) = n := by
  induction n using Nat.strongRecOn with
  | ind n ih =>
    have happend (m : Nat) {d : Nat} (hd : d < 10) :
        appendDigit m (Nat.digitChar d) = 10 * m + d := by
      rw [appendDigit, digitValue?_digitChar d hd, Option.getD_some]
    rw [digits]
    by_cases hn : n < 10
    · rw [Nat.toDigits_of_lt_base hn]
      exact (happend 0 hn).trans (by omega)
    · have hlast : n % 10 < 10 := Nat.mod_lt n (by decide)
      have hsplit : Nat.toDigits 10 n = digits (n / 10) ++ [Nat.digitChar (n % 10)] := by
        rw [digits, ← Nat.toDigits_of_lt_base hlast,
          Nat.toDigits_append_toDigits (by decide) (by omega) hlast, Nat.div_add_mod]
      rw [hsplit, digitsValue_concat, happend _ hlast, ih (n / 10) (by omega), Nat.div_add_mod]

theorem length_digits_le {n k : Nat} (hk : 0 < k) (h : n < Nat.pow 10 k) :
    (digits n).length ≤ k :=
  Nat.toDigits_length 10 n k hk h

/-! ## Numerals -/

/-- A number that can be written has no more digits than can be read. -/
theorem readNat_digits {n : Nat} (h : n < writableBound) : readNat (digits n) = .ok n := by
  have hlength : (digits n).length ≤ maxDigits := by
    unfold writableBound at h
    exact length_digits_le (by decide) h
  rw [readNat, if_neg (Nat.not_lt.mpr hlength), digitsValue_digits]

/-- A text that starts with a digit starts with no sign. -/
theorem readInt_of_isDigit {ds : List Char} (h : ∀ c ∈ ds.head?, isDigit c = true) :
    readInt ds = (readNat ds).map Int.ofNat := by
  have hread : (do return Int.ofNat (← readNat ds) : Except Fault Int) =
      (readNat ds).map Int.ofNat := by
    cases readNat ds <;> rfl
  rw [readInt.eq_def]
  split
  · exact absurd (h '-' rfl) (by decide)
  · exact absurd (h '+' rfl) (by decide)
  · exact hread

/-- A number that can be written is read back. -/
theorem readInt_signedDigits {n : Int} (h : isWritable n = true) :
    readInt (signedDigits n) = .ok n := by
  cases n with
  | ofNat n =>
    have hbound : n < writableBound := of_decide_eq_true h
    rw [signedDigits,
      readInt_of_isDigit fun c hc ↦ isDigit_of_mem_digits (List.mem_of_mem_head? hc),
      readNat_digits hbound]
    rfl
  | negSucc n =>
    have hbound : n + 1 < writableBound := of_decide_eq_true h
    rw [signedDigits, readInt, readNat_digits hbound]
    rfl

/-- A numeral is digits, perhaps behind a minus sign. -/
theorem dropSign_signedDigits (n : Int) : ∃ m, (dropSign (signedDigits n)).2 = digits m := by
  cases n with
  | ofNat n =>
    refine ⟨n, ?_⟩
    rw [signedDigits, dropSign.eq_def]
    split
    case h_1 s hs =>
      exact absurd (isDigit_of_mem_digits (hs ▸ List.mem_cons_self)) (by decide)
    case h_2 s hs =>
      exact absurd (isDigit_of_mem_digits (hs ▸ List.mem_cons_self)) (by decide)
    case h_3 => rfl
  | negSucc n => exact ⟨n + 1, rfl⟩

/-- The characters of a numeral. -/
theorem mem_signedDigits {n : Int} {c : Char} (h : c ∈ signedDigits n) :
    c = '-' ∨ ∃ d < 10, Nat.digitChar d = c := by
  cases n with
  | ofNat n => exact .inr (exists_digitChar c h)
  | negSucc n =>
    rcases List.mem_cons.mp h with rfl | h
    · exact .inl rfl
    · exact .inr (exists_digitChar c h)

/-- There are no blanks around a numeral. -/
theorem trimNumeral_signedDigits (n : Int) : trimNumeral (signedDigits n) = signedDigits n := by
  have hdigit : ∀ d < 10, isNumeralBlank (Nat.digitChar d) = false := by decide
  have hblank : ∀ c ∈ signedDigits n, isNumeralBlank c = false := by
    intro c hc
    rcases mem_signedDigits hc with rfl | ⟨d, hd, rfl⟩
    · decide
    · exact hdigit d hd
  have hkeep (s : List Char) (hs : ∀ c ∈ s, isNumeralBlank c = false) :
      s.dropWhile isNumeralBlank = s := by
    cases s with
    | nil => rfl
    | cons c s => rw [List.dropWhile_cons_of_neg (by simp [hs c])]
  rw [trimNumeral, hkeep _ hblank, hkeep _ fun c hc ↦ hblank c (List.mem_reverse.mp hc),
    List.reverse_reverse]

/-- There are no underscores in a numeral. -/
theorem dropUnderscores?_signedDigits (n : Int) :
    dropUnderscores? false (signedDigits n) = some (signedDigits n) := by
  have hdigit : ∀ d < 10, Nat.digitChar d ≠ '_' := by decide
  have hplain : ∀ c ∈ signedDigits n, c ≠ '_' := by
    intro c hc
    rcases mem_signedDigits hc with rfl | ⟨d, hd, rfl⟩
    · decide
    · exact hdigit d hd
  suffices hgen : ∀ (s : List Char) (b : Bool), (∀ c ∈ s, c ≠ '_') →
      dropUnderscores? b s = some s from hgen _ false hplain
  intro s
  induction s with
  | nil =>
    intro b _
    rfl
  | cons c s ih =>
    intro b hs
    rw [dropUnderscores?, if_neg (hs c List.mem_cons_self),
      ih (isDigit c) fun x hx ↦ hs x (List.mem_cons_of_mem c hx)]
    rfl

/-! ## What is read can be written

A numeral of so many digits stands for a number of no more digits, though it may have fewer, as
zeros in front are read over. -/

theorem digitsValue_lt (ds : List Char) : digitsValue ds < 10 ^ ds.length := by
  induction ds using List.reverseRecOn with
  | nil => exact Nat.one_pos
  | append_singleton ds c ih =>
    have hdigit : (digitValue? c).getD 0 < 10 := by
      cases hc : digitValue? c with
      | none => exact Nat.succ_pos _
      | some v => exact digitValue?_lt hc
    rw [digitsValue_concat, appendDigit, List.length_append, List.length_singleton, Nat.pow_succ]
    omega

theorem digitsValue_lt_pow {ds : List Char} {k : Nat} (h : ds.length ≤ k) :
    digitsValue ds < Nat.pow 10 k :=
  (digitsValue_lt ds).trans_le (Nat.pow_le_pow_right (by decide) h)

/-- A number that is read can be written, as a numeral of so many digits stands for a number of no
more. -/
theorem isWritable_of_readNat {ds : List Char} {n : Nat} (h : readNat ds = .ok n) :
    isWritable n = true := by
  rw [readNat] at h
  split at h
  case isTrue => cases h
  case isFalse hlength =>
    obtain rfl := Except.ok.inj h
    have hlt := digitsValue_lt_pow (Nat.not_lt.mp hlength)
    unfold isWritable writableBound
    rwa [Int.natAbs_natCast, decide_eq_true_iff]

theorem isWritable_neg (n : Int) : isWritable (-n) = isWritable n := by
  rw [isWritable, isWritable, Int.natAbs_neg]

theorem isWritable_of_readInt {ds : List Char} {n : Int} (h : readInt ds = .ok n) :
    isWritable n = true := by
  have hpositive {ds : List Char} (h : (do return Int.ofNat (← readNat ds)) = Except.ok n) :
      isWritable n = true := by
    cases hds : readNat ds with
    | error e =>
      rw [hds] at h
      cases h
    | ok m =>
      rw [hds] at h
      obtain rfl := Except.ok.inj h
      exact isWritable_of_readNat hds
  rw [readInt.eq_def] at h
  split at h
  case h_1 ds =>
    cases hds : readNat ds with
    | error e =>
      rw [hds] at h
      cases h
    | ok m =>
      rw [hds] at h
      obtain rfl := Except.ok.inj h
      rw [isWritable_neg]
      exact isWritable_of_readNat hds
  case h_2 => exact hpositive h
  case h_3 => exact hpositive h

/-! ## Numerals that are too long -/

theorem readNat_eq_error {ds : List Char} {f : Fault} (h : readNat ds = .error f) :
    f = .numeralTooLong ∧ maxDigits < ds.length := by
  rw [readNat] at h
  split at h
  case isTrue hlong => exact ⟨(Except.error.inj h).symm, hlong⟩
  case isFalse => cases h

/-- A numeral that cannot be read has too many digits behind its sign. -/
theorem readInt_eq_error {ds : List Char} {f : Fault} (h : readInt ds = .error f) :
    f = .numeralTooLong ∧ maxDigits < (dropSign ds).2.length := by
  have hbind {ds : List Char} {g : Nat → Int} (h : (do return g (← readNat ds)) = Except.error f) :
      readNat ds = .error f := by
    cases hds : readNat ds with
    | ok n =>
      rw [hds] at h
      cases h
    | error e =>
      rw [hds] at h
      cases h
      rfl
  fun_cases dropSign ds with
  | case1 s => exact readNat_eq_error (hbind h)
  | case2 s => exact readNat_eq_error (hbind h)
  | case3 =>
    rename_i hminus hplus
    rw [readInt.eq_3 _ hminus hplus] at h
    exact readNat_eq_error (hbind h)

end TextScore.Number
