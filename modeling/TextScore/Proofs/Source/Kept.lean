import Mathlib.Data.List.Induction
import Mathlib.Data.List.Infix
import TextScore.Proofs.Source.Marked
import TextScore.Proofs.Text.Scan
import TextScore.Proofs.Text.Words
import TextScore.Score.Compile

/-!
# What is kept of a score text

Comments, blanks at the ends of lines and definitions of fragments are left out of a score text
before its lines are read.  What is left of the text stays in its lines.

The two steps leave things out in different ways.  Comments are left out line by line, and what is
left of a line is a beginning of it.  Definitions are left out of the whole text, over the ends of
lines, and from the middle of lines.  Both leave all line feeds where they are, and that alone is
why the line numbers in diagnostics are those of the text.

## What is here

* `Comment.IsOver` — from here on, a line has nothing but comments and blanks.
* `Comment.kept_marks`, `Macro.kept_marks` — what the two steps keep.
* `Draft.marks` — the characters of a text that are kept.
* `Draft.keeps_marks` — they stay in their lines.

The marks for comments are defined by what stands in the line, without running the step that strips
it: a comment starts at two percent signs, or at two slashes behind nothing but blanks, and from a
place on the line may have nothing else.  That the stripped line ends just there is the theorem.
-/

set_option autoImplicit false

namespace TextScore

open Text

/-! ## Comments

`Starts`, `Covers` and `IsOver` are about places in a line, and all of them can be decided. -/

namespace Comment

variable {l : List Char} {i : Nat}

/-- A comment starts at a place in a line: two percent signs, or two slashes behind blanks only. -/
def Starts (l : List Char) (k : Nat) : Prop :=
  ['%', '%'] <+: l.drop k ∨ (['/', '/'] <+: l.drop k ∧ ∀ c ∈ l.take k, isBlank c = true)

/-- A place in a line lies in a comment. -/
def Covers (l : List Char) (i : Nat) : Prop := ∃ k, k ≤ i ∧ Starts l k

/-- From a place on, a line has nothing but comments and blanks. -/
def IsOver (l : List Char) (i : Nat) : Prop :=
  ∀ j (_ : j < l.length), i ≤ j → Covers l j ∨ isBlank l[j] = true

instance (l : List Char) (k : Nat) : Decidable (Starts l k) :=
  inferInstanceAs (Decidable (_ ∨ _))

instance (l : List Char) (i : Nat) : Decidable (Covers l i) :=
  inferInstanceAs (Decidable (∃ k, k ≤ i ∧ Starts l k))

instance (l : List Char) (i : Nat) : Decidable (IsOver l i) :=
  inferInstanceAs (Decidable (∀ j (_ : j < l.length), i ≤ j → Covers l j ∨ isBlank l[j] = true))

/-- A line with the characters marked that stand neither in a comment nor in front of nothing but
comments and blanks. -/
def markLine (l : List Char) : Marked := l.mapIdx fun i c ↦ (c, decide ¬IsOver l i)

/-- A text, each of its lines marked. -/
def marks (s : List Char) : Marked := Marked.unlines ((lines s).map markLine)

/-! ### A line

What is left of a line is a beginning of it, so it is enough to know how long it is; the lemmas say
for each step which places are still there behind it. -/

theorem beforeMarkOnto_cons (acc : List Char) {c : Char} {s : List Char}
    (h : ¬['%', '%'] <+: c :: s) : beforeMarkOnto acc (c :: s) = beforeMarkOnto (c :: acc) s := by
  rw [beforeMarkOnto]
  rintro r rfl rfl
  exact h (List.prefix_append ['%', '%'] r)

theorem beforeMarkOnto_eq (acc s : List Char) :
    beforeMarkOnto acc s = acc.reverse ++ beforeMark s := by
  induction s generalizing acc with
  | nil => exact (List.append_nil _).symm
  | cons c s ih =>
    by_cases h : ['%', '%'] <+: c :: s
    · obtain ⟨r, hr⟩ := h
      rw [← hr]
      exact (List.append_nil _).symm
    · rw [beforeMark, beforeMarkOnto_cons acc h, beforeMarkOnto_cons [] h, ih, ih [c]]
      simp

theorem beforeMark_cons {c : Char} {s : List Char} (h : ¬['%', '%'] <+: c :: s) :
    beforeMark (c :: s) = c :: beforeMark s := by
  rw [beforeMark, beforeMarkOnto_cons [] h, beforeMarkOnto_eq]
  rfl

theorem isPrefix_beforeMark (l : List Char) : beforeMark l <+: l := by
  induction l with
  | nil => exact List.prefix_rfl
  | cons c s ih =>
    by_cases h : ['%', '%'] <+: c :: s
    · obtain ⟨r, hr⟩ := h
      rw [← hr]
      exact List.nil_prefix
    · rw [beforeMark_cons h]
      exact List.cons_prefix_cons.mpr ⟨rfl, ih⟩

/-- The part before the mark goes on as long as there was none. -/
theorem lt_length_beforeMark :
    i < (beforeMark l).length ↔ i < l.length ∧ ∀ k ≤ i, ¬['%', '%'] <+: l.drop k := by
  induction l generalizing i with
  | nil => simp [beforeMark, beforeMarkOnto]
  | cons c s ih =>
    by_cases h : ['%', '%'] <+: c :: s
    · have hnil : beforeMark (c :: s) = [] := by
        obtain ⟨r, hr⟩ := h
        rw [← hr]
        rfl
      rw [hnil]
      exact iff_of_false (Nat.not_lt_zero i) fun hi ↦ hi.2 0 (Nat.zero_le i) h
    · rw [beforeMark_cons h, List.length_cons, List.length_cons]
      cases i with
      | zero =>
        refine iff_of_true (Nat.succ_pos _) ⟨Nat.succ_pos _, fun k hk ↦ ?_⟩
        obtain rfl := Nat.le_zero.mp hk
        exact h
      | succ i =>
        rw [Nat.succ_lt_succ_iff, ih, Nat.succ_lt_succ_iff]
        refine and_congr_right fun _ ↦ ⟨fun hs k hk ↦ ?_, fun hs k hk ↦ hs (k + 1) (by omega)⟩
        cases k with
        | zero => exact h
        | succ k => exact hs k (by omega)

theorem trimEnd_concat (s : List Char) (c : Char) :
    trimEnd (s ++ [c]) = if isBlank c then trimEnd s else s ++ [c] := by
  rw [trimEnd, List.reverse_append, List.reverse_singleton, List.singleton_append,
    List.dropWhile_cons]
  split
  · rfl
  · rw [List.reverse_cons, List.reverse_reverse]

theorem isPrefix_trimEnd (s : List Char) : trimEnd s <+: s := by
  obtain ⟨b, hs, -⟩ := exists_trimEnd s
  exact ⟨b, hs.symm⟩

/-- A text without the blanks at its end goes on as long as something else follows. -/
theorem lt_length_trimEnd {s : List Char} :
    i < (trimEnd s).length ↔ ∃ j, ∃ _ : j < s.length, i ≤ j ∧ ¬isBlank s[j] = true := by
  induction s using List.reverseRecOn with
  | nil =>
    refine iff_of_false (Nat.not_lt_zero i) ?_
    rintro ⟨j, hj, -⟩
    exact Nat.not_lt_zero j hj
  | append_singleton s c ih =>
    rw [trimEnd_concat]
    by_cases hc : isBlank c = true
    · rw [if_pos hc, ih]
      constructor
      · rintro ⟨j, hj, hij, hblank⟩
        refine ⟨j, by rw [List.length_append]; omega, hij, ?_⟩
        rwa [List.getElem_append_left hj]
      · rintro ⟨j, hj, hij, hblank⟩
        by_cases hlast : j < s.length
        · rw [List.getElem_append_left hlast] at hblank
          exact ⟨j, hlast, hij, hblank⟩
        · rw [List.getElem_append_right (Nat.le_of_not_lt hlast), List.getElem_singleton] at hblank
          exact absurd hc hblank
    · rw [if_neg hc]
      constructor
      · intro hi
        rw [List.length_append, List.length_singleton] at hi
        refine ⟨s.length, by simp, by omega, ?_⟩
        rwa [List.getElem_concat_length rfl]
      · rintro ⟨j, hj, hij, -⟩
        omega

theorem isCommentLine_iff {s : List Char} :
    isCommentLine s = true ↔
      ∃ k, ['/', '/'] <+: s.drop k ∧ ∀ c ∈ s.take k, isBlank c = true := by
  rw [isCommentLine, List.isPrefixOf_iff_prefix, trimStart]
  induction s with
  | nil => simp
  | cons c s ih =>
    -- a blank in front moves the place of the mark by one
    by_cases hc : isBlank c = true
    · have hslash : c ≠ '/' := by
        rintro rfl
        exact absurd hc (by decide)
      rw [List.dropWhile_cons_of_pos hc, ih]
      constructor
      · rintro ⟨k, hk, hblank⟩
        exact ⟨k + 1, hk, List.forall_mem_cons.mpr ⟨hc, hblank⟩⟩
      · rintro ⟨k, hk, hblank⟩
        cases k with
        | zero => exact absurd (List.cons_prefix_cons.mp hk).1.symm hslash
        | succ k => exact ⟨k, hk, (List.forall_mem_cons.mp hblank).2⟩
    · rw [List.dropWhile_cons_of_neg hc]
      constructor
      · intro h
        exact ⟨0, h, fun d hd ↦ absurd hd List.not_mem_nil⟩
      · rintro ⟨k, hk, hblank⟩
        cases k with
        | zero => exact hk
        | succ k => exact absurd (List.forall_mem_cons.mp hblank).1 hc

theorem take_eq_of_isPrefix {s : List Char} (h : s <+: l) {k : Nat} (hk : k ≤ s.length) :
    l.take k = s.take k := by
  obtain ⟨r, rfl⟩ := h
  exact List.take_append_of_le_length hk

/-- Percent signs behind the slashes do not matter. -/
theorem isCommentLine_beforeMark_iff :
    isCommentLine (beforeMark l) = true ↔
      ∃ k, ['/', '/'] <+: l.drop k ∧ ∀ c ∈ l.take k, isBlank c = true := by
  rw [isCommentLine_iff]
  refine exists_congr fun k ↦ ?_
  have hfront := isPrefix_beforeMark l
  constructor
  · rintro ⟨hk, hblank⟩
    have hlength := hk.length_le
    rw [List.length_drop, List.length_cons, List.length_singleton] at hlength
    rw [take_eq_of_isPrefix hfront (by omega)]
    exact ⟨hk.trans (hfront.drop k), hblank⟩
  · rintro ⟨hk, hblank⟩
    obtain ⟨r, hr⟩ := hk
    have hlength := congrArg List.length hr
    rw [List.length_append, List.length_cons, List.length_singleton, List.length_drop] at hlength
    -- neither a blank nor a slash is a percent sign
    have hpercent : ∀ j ≤ k + 1, ¬['%', '%'] <+: l.drop j := by
      rintro j hj ⟨t, ht⟩
      have hhead : l[j]? = some '%' := by
        rw [← List.head?_drop, ← ht]
        rfl
      by_cases hjk : j < k
      · have hmem : '%' ∈ l.take k :=
          List.mem_iff_getElem?.mpr ⟨j, (List.getElem?_take_of_lt hjk).trans hhead⟩
        exact absurd (hblank _ hmem) (by decide)
      · obtain ⟨d, rfl⟩ := Nat.exists_eq_add_of_le (Nat.le_of_not_lt hjk)
        rw [← List.getElem?_drop, ← hr] at hhead
        have hd : d = 0 ∨ d = 1 := by omega
        rcases hd with rfl | rfl
        · exact absurd hhead (by simp)
        · exact absurd hhead (by simp)
    have hlong : k + 1 < (beforeMark l).length := lt_length_beforeMark.mpr ⟨by omega, hpercent⟩
    rw [← take_eq_of_isPrefix hfront (by omega)]
    refine ⟨List.prefix_of_prefix_length_le ⟨r, hr⟩ (hfront.drop k) ?_, hblank⟩
    rw [List.length_drop, List.length_cons, List.length_singleton]
    omega

theorem isPrefix_stripLine (l : List Char) : stripLine l <+: l := by
  rw [stripLine]
  split
  · exact List.nil_prefix
  · exact (isPrefix_trimEnd _).trans (isPrefix_beforeMark l)

/-- What is kept of a line is what it has before it is over. -/
theorem lt_length_stripLine : i < (stripLine l).length ↔ ¬IsOver l i := by
  rw [stripLine]
  split
  case isTrue h =>
    obtain ⟨k, hk, hblank⟩ := isCommentLine_beforeMark_iff.mp h
    refine iff_of_false (Nat.not_lt_zero i) (not_not_intro fun j hj _ ↦ ?_)
    by_cases hjk : j < k
    · exact .inr (hblank _ (List.mem_take_iff_getElem.mpr ⟨j, by omega, rfl⟩))
    · exact .inl ⟨k, Nat.le_of_not_lt hjk, .inr ⟨hk, hblank⟩⟩
  case isFalse h =>
    -- a mark covers what stands behind it
    have hcovers {j : Nat} (hj : j < l.length) : Covers l j ↔ ¬j < (beforeMark l).length := by
      constructor
      · rintro ⟨k, hkj, hpercent | hslashes⟩ hlt
        · exact (lt_length_beforeMark.mp hlt).2 k hkj hpercent
        · exact h (isCommentLine_beforeMark_iff.mpr ⟨k, hslashes⟩)
      · intro hlt
        by_contra hnone
        exact hlt (lt_length_beforeMark.mpr ⟨hj, fun k hk hp ↦ hnone ⟨k, hk, .inl hp⟩⟩)
    have hfront := isPrefix_beforeMark l
    rw [lt_length_trimEnd]
    constructor
    · rintro ⟨j, hj, hij, hblank⟩ hover
      have hjl := (lt_length_beforeMark.mp hj).1
      rw [hfront.getElem hj] at hblank
      exact (hover j hjl hij).elim (fun hc ↦ (hcovers hjl).mp hc hj) hblank
    · intro hover
      by_contra hnone
      refine hover fun j hj hij ↦ ?_
      by_contra hplain
      rw [not_or, hcovers hj, not_not] at hplain
      refine hnone ⟨j, hplain.1, hij, ?_⟩
      rw [hfront.getElem hplain.1]
      exact hplain.2

/-! ### A text -/

theorem whole_markLine (l : List Char) : (markLine l).whole = l := by
  refine List.ext_getElem? fun i ↦ ?_
  rw [Marked.whole, List.getElem?_map, markLine, List.getElem?_mapIdx, Option.map_map]
  exact congrFun Option.map_id _

theorem kept_markLine (l : List Char) : (markLine l).kept = stripLine l := by
  obtain ⟨r, hr⟩ := isPrefix_stripLine l
  have hmarks : markLine l = (stripLine l).map (fun c ↦ (c, true)) ++ r.map fun c ↦ (c, false) := by
    refine List.ext_getElem? fun i ↦ ?_
    have hget : l[i]? = (stripLine l ++ r)[i]? := by rw [hr]
    rw [markLine, List.getElem?_mapIdx, hget]
    by_cases hi : i < (stripLine l).length
    · rw [List.getElem?_append_left hi, List.getElem?_append_left (by rwa [List.length_map]),
        List.getElem?_map, decide_eq_true (lt_length_stripLine.mp hi)]
    · have hle := Nat.le_of_not_lt hi
      rw [List.getElem?_append_right hle, List.getElem?_append_right (by rwa [List.length_map]),
        List.getElem?_map, List.length_map, decide_eq_false (mt lt_length_stripLine.mpr hi)]
  rw [hmarks, Marked.kept_append, Marked.kept_mark, Marked.kept_mark]
  simp

theorem whole_marks (s : List Char) : (marks s).whole = s := by
  rw [marks, Marked.whole_unlines, List.map_map]
  have hlines : (lines s).map (Marked.whole ∘ markLine) = lines s :=
    (List.map_congr_left fun l _ ↦ whole_markLine l).trans (List.map_id _)
  rw [hlines]
  exact joinWith_splitOnChar '\n' s

/-- The characters that are marked are those that are left without comments. -/
theorem kept_marks (s : List Char) : (marks s).kept = strip s := by
  rw [marks, Marked.kept_unlines, List.map_map, strip]
  congr 1
  exact List.map_congr_left fun l _ ↦ kept_markLine l

theorem keepsLines_marks (s : List Char) : (marks s).KeepsLines := by
  refine .unlines fun m hm x hx hline ↦ ?_
  obtain ⟨l, hl, rfl⟩ := List.mem_map.mp hm
  have hmem : x.1 ∈ (markLine l).whole := List.mem_map_of_mem hx
  rw [whole_markLine, hline] at hmem
  exact absurd hmem (not_mem_of_mem_splitOnChar hl)

end Comment

/-! ## Definitions of fragments

Of a definition the line feeds are kept and nothing else, of the rest of the text everything. -/

namespace Macro

/-- A character outside definitions is kept; of a definition the line feeds are. -/
def markPiece : Piece Definition → Marked
  | .plain c => [(c, true)]
  | .found d => d.written.map fun c ↦ (c, c == '\n')

/-- A text, its definitions marked. -/
def marks (s : List Char) : Marked := (Definition.recogniser.pieces s).flatMap markPiece

theorem whole_marks (s : List Char) : (marks s).whole = s := by
  rw [marks, Marked.whole_flatMap]
  refine Eq.trans ?_ (Definition.recogniser.fill_pieces_of_eq (f := Definition.written)
    Definition.read?_eq s)
  refine List.flatMap_congr fun p _ ↦ ?_
  cases p with
  | plain c => rfl
  | found d => exact Marked.whole_mark _ d.written

/-- The characters that are marked are those that are left without definitions. -/
theorem kept_marks (s : List Char) : (marks s).kept = (Table.collect ∅ s).1 := by
  rw [marks, Marked.kept_flatMap]
  refine List.flatMap_congr fun p _ ↦ ?_
  cases p with
  | plain c => rfl
  | found d => exact Marked.kept_mark _ d.written

theorem keepsLines_marks (s : List Char) : (marks s).KeepsLines := by
  intro x hx hline
  obtain ⟨p, -, hx⟩ := List.mem_flatMap.mp hx
  cases p with
  | plain c =>
    obtain rfl := List.mem_singleton.mp hx
    rfl
  | found d =>
    obtain ⟨c, -, rfl⟩ := List.mem_map.mp hx
    exact beq_iff_eq.mpr hline

end Macro

/-! ## The whole text -/

namespace Draft

/-- A text with its characters marked that stand in no comment, have something other than comments
and blanks at or behind them on their line, and stand in no definition; all line feeds are
marked. -/
def marks (text : List Char) : Marked :=
  (Comment.marks text).andThen (Macro.marks (Comment.strip text))

/-- What is left of a text without comments and definitions stays in its lines. -/
theorem keeps_marks (text : List Char) :
    Keeps text (Macro.Table.collect ∅ (Comment.strip text)).1 (marks text) := by
  have hjoin : (Macro.marks (Comment.strip text)).whole = (Comment.marks text).kept := by
    rw [Macro.whole_marks, Comment.kept_marks]
  have hwhole : (marks text).whole = text := by
    rw [marks, Marked.whole_andThen, Comment.whole_marks]
  have hkept : (marks text).kept = (Macro.Table.collect ∅ (Comment.strip text)).1 := by
    rw [marks, Marked.kept_andThen hjoin, Macro.kept_marks]
  have hlines : (marks text).KeepsLines :=
    .andThen hjoin (Comment.keepsLines_marks text) (Macro.keepsLines_marks _)
  have hkeeps := Marked.keeps hlines
  rwa [hwhole, hkept] at hkeeps

/-- Two line feeds stand in front of the header, in what is left as in the text. -/
example : (marks "$a = \x7b\nc4 \x7d %% x\nm 1 ".toList).kept = "\n\nm 1".toList := by
  decide +kernel

end Draft

end TextScore
