import TextScore.Proofs.Source.Kept

/-!
# Comments are invisible

Blanks and comments at the ends of lines, carriage returns among them, make no difference to what is
kept of a text, and so none to the score.  What is kept has no comments any more.

The one thing that could go wrong is where a line and what is appended to it meet.  A percent sign
at the end of a line, and one at the start of what follows, would make a comment of both.  So a
comment is appended behind at least one blank.  And two slashes make a comment of a whole line only
if nothing but blanks stands before them, which appending blanks does not change.

## What is here

* `Comment.Trailer` — what can be appended to a line.
* `Comment.stripLine_append` — it is lost, whatever the line is.
* `Comment.strip_strip` — of what is kept everything is kept.
* `Comment.invisible_append` — the text and the score with and without trailers.
-/

set_option autoImplicit false

namespace TextScore

open Text

namespace Comment

/-! ## A line

The comment that is appended may itself have percent signs and slashes in it; what is found first
counts, and everything behind is lost. -/

/-- What can be appended to a line: blanks, and behind one blank at least, a comment. -/
inductive Trailer : List Char → Prop
  /-- Blanks. -/
  | blank {b : List Char} (hb : ∀ c ∈ b, isBlank c = true) (hline : '\n' ∉ b) : Trailer b
  /-- A comment behind blanks. -/
  | comment {b t : List Char} (hne : b ≠ []) (hb : ∀ c ∈ b, isBlank c = true) (hline : '\n' ∉ b)
    (ht : '\n' ∉ t) : Trailer (b ++ '%' :: '%' :: t)

variable {l m b d : List Char}

theorem Trailer.not_mem (h : Trailer d) : '\n' ∉ d := by
  cases h with
  | blank hb hline => exact hline
  | comment hne hb hline ht => simp [hline, ht]

theorem beforeMark_of_isPrefix (h : ['%', '%'] <+: l) : beforeMark l = [] := by
  obtain ⟨r, rfl⟩ := h
  rfl

/-- There is no mark before the mark. -/
theorem beforeMark_beforeMark (l : List Char) : beforeMark (beforeMark l) = beforeMark l := by
  induction l with
  | nil => rfl
  | cons c s ih =>
    by_cases h : ['%', '%'] <+: c :: s
    · rw [beforeMark_of_isPrefix h]
      rfl
    · have hfront : ¬['%', '%'] <+: c :: beforeMark s := fun hmark ↦
        h (hmark.trans (List.cons_prefix_cons.mpr ⟨rfl, isPrefix_beforeMark s⟩))
      rw [beforeMark_cons h, beforeMark_cons hfront, ih]

/-- A mark is found in one of two parts, unless the second one starts with a percent sign. -/
theorem beforeMark_append (hm : m.head? ≠ some '%') (l : List Char) :
    beforeMark (l ++ m) = beforeMark l ∨ beforeMark (l ++ m) = beforeMark l ++ beforeMark m := by
  induction l with
  | nil => exact .inr rfl
  | cons c s ih =>
    by_cases h : ['%', '%'] <+: c :: s
    · left
      rw [beforeMark_of_isPrefix h, beforeMark_of_isPrefix (h.trans (List.prefix_append _ m))]
    · have hfront : ¬['%', '%'] <+: c :: (s ++ m) := by
        cases s with
        | nil =>
          intro hmark
          obtain ⟨r, hr⟩ := (List.cons_prefix_cons.mp hmark).2
          rw [List.nil_append] at hr
          exact hm (by rw [← hr]; rfl)
        | cons e s =>
          simpa only [List.cons_append, List.cons_prefix_cons, List.nil_prefix] using h
      rw [beforeMark_cons h, List.cons_append, beforeMark_cons hfront]
      exact ih.imp (congrArg _) (congrArg _)

theorem beforeMark_blank (hb : ∀ c ∈ b, isBlank c = true) (t : List Char) :
    beforeMark (b ++ '%' :: '%' :: t) = b ∧ beforeMark b = b := by
  induction b with
  | nil => exact ⟨rfl, rfl⟩
  | cons c s ih =>
    rw [List.forall_mem_cons] at hb
    have hfront (u : List Char) : ¬['%', '%'] <+: c :: u := by
      intro hmark
      obtain rfl := (List.cons_prefix_cons.mp hmark).1
      exact absurd hb.1 (by decide)
    rw [List.cons_append, beforeMark_cons (hfront _), beforeMark_cons (hfront _), (ih hb.2).1,
      (ih hb.2).2]
    exact ⟨rfl, rfl⟩

/-- Blanks behind a line do not make it a comment. -/
theorem isCommentLine_append (hb : ∀ c ∈ b, isBlank c = true) (l : List Char) :
    isCommentLine (l ++ b) = isCommentLine l := by
  have hslash : '/' ∉ b := fun hmem ↦ absurd (hb _ hmem) (by decide)
  rw [Bool.eq_iff_iff, isCommentLine, isCommentLine, List.isPrefixOf_iff_prefix,
    List.isPrefixOf_iff_prefix, trimStart, trimStart, List.dropWhile_append]
  split
  case isTrue hempty =>
    have hnil : b.dropWhile isBlank = [] := by
      rw [← List.append_nil b, List.dropWhile_append_of_pos hb, List.dropWhile_nil]
    rw [hnil, List.isEmpty_iff.mp hempty]
  case isFalse =>
    refine ⟨fun h ↦ ?_, fun h ↦ h.trans (List.prefix_append _ _)⟩
    cases hs : l.dropWhile isBlank with
    | nil =>
      rw [hs] at h
      exact absurd (h.subset List.mem_cons_self) hslash
    | cons c s =>
      rw [hs] at h
      rw [List.cons_append, List.cons_prefix_cons] at h
      refine List.cons_prefix_cons.mpr ⟨h.1, ?_⟩
      cases s with
      | nil => exact absurd (h.2.subset List.mem_cons_self) hslash
      | cons e s =>
        exact List.cons_prefix_cons.mpr ⟨(List.cons_prefix_cons.mp h.2).1, List.nil_prefix⟩

/-- What has only blanks before its mark, and does not start with a percent sign, is lost behind a
line. -/
theorem stripLine_append_of_blank (hhead : d.head? ≠ some '%')
    (hd : ∀ c ∈ beforeMark d, isBlank c = true) (l : List Char) :
    stripLine (l ++ d) = stripLine l := by
  rcases beforeMark_append hhead l with hsame | hmore
  · rw [stripLine, stripLine, hsame]
  · rw [stripLine, stripLine, hmore, isCommentLine_append hd, trimEnd_append_blank hd]

theorem head?_ne_of_blank (hb : ∀ c ∈ b, isBlank c = true) : b.head? ≠ some '%' :=
  fun hhead ↦ absurd (hb _ (List.mem_of_mem_head? hhead)) (by decide)

/-- Blanks and comments behind a line are lost. -/
theorem Trailer.stripLine_append (h : Trailer d) (l : List Char) :
    stripLine (l ++ d) = stripLine l := by
  cases h with
  | blank hb hline =>
    refine stripLine_append_of_blank (head?_ne_of_blank hb) ?_ l
    rwa [(beforeMark_blank hb []).2]
  | @comment b t hne hb hline ht =>
    refine stripLine_append_of_blank ?_ ?_ l
    · rw [List.head?_append_of_ne_nil _ hne]
      exact head?_ne_of_blank hb
    · rwa [(beforeMark_blank hb t).1]

/-- What is kept of a line is kept altogether. -/
theorem stripLine_stripLine (l : List Char) : stripLine (stripLine l) = stripLine l := by
  by_cases hcomment : isCommentLine (beforeMark l) = true
  · have hnil : stripLine l = [] := by rw [stripLine, if_pos hcomment]
    rw [hnil]
    rfl
  have hkept : stripLine l = trimEnd (beforeMark l) := by rw [stripLine, if_neg hcomment]
  have hstrip : stripLine (beforeMark l) = stripLine l := by
    rw [stripLine, beforeMark_beforeMark, stripLine]
  -- the blanks that were lost at the end do not matter now either
  obtain ⟨b, hsplit, hb⟩ := exists_trimEnd (beforeMark l)
  have hlost := stripLine_append_of_blank (head?_ne_of_blank hb)
    (by rwa [(beforeMark_blank hb []).2]) (trimEnd (beforeMark l))
  rw [← hsplit, hstrip, ← hkept] at hlost
  exact hlost.symm

/-! ## A text

Every line gets a trailer, the empty one if nothing is to be appended, so a text and its trailers
are two lists of the same length. -/

/-- A text with something appended to each of its lines. -/
def append (s : List Char) (ds : List (List Char)) : List Char :=
  unlines (List.zipWith (· ++ ·) (lines s) ds)

variable {s : List Char} {ds : List (List Char)}

theorem lines_append (hlength : ds.length = (lines s).length) (hds : ∀ d ∈ ds, Trailer d) :
    lines (append s ds) = List.zipWith (· ++ ·) (lines s) ds := by
  refine lines_unlines_of_not_mem ?_ fun l hl ↦ ?_
  · rw [← List.length_pos_iff, List.length_zipWith, hlength, Nat.min_self, List.length_pos_iff]
    exact splitOnChar_ne_nil '\n' s
  · obtain ⟨i, hi, rfl⟩ := List.mem_iff_getElem.mp hl
    rw [List.getElem_zipWith, List.mem_append, not_or]
    exact ⟨not_mem_of_mem_splitOnChar (List.getElem_mem _),
      (hds _ (List.getElem_mem _)).not_mem⟩

/-- Trailers are lost. -/
theorem strip_append (hlength : ds.length = (lines s).length) (hds : ∀ d ∈ ds, Trailer d) :
    strip (append s ds) = strip s := by
  rw [strip, strip, lines_append hlength hds]
  congr 1
  refine List.ext_getElem ?_ fun i hi hi' ↦ ?_
  · rw [List.length_map, List.length_map, List.length_zipWith, hlength, Nat.min_self]
  · rw [List.getElem_map, List.getElem_map, List.getElem_zipWith]
    exact (hds _ (List.getElem_mem _)).stripLine_append _

/-- What is kept of a text is kept altogether. -/
theorem strip_strip (s : List Char) : strip (strip s) = strip s := by
  have hlines : lines (strip s) = (lines s).map stripLine := by
    refine lines_unlines_of_not_mem ?_ fun l hl ↦ ?_
    · exact mt List.map_eq_nil_iff.mp (splitOnChar_ne_nil '\n' s)
    · obtain ⟨k, hk, rfl⟩ := List.mem_map.mp hl
      exact fun hmem ↦ not_mem_of_mem_splitOnChar hk ((isPrefix_stripLine k).subset hmem)
  rw [strip, hlines, List.map_map, strip]
  exact congrArg _ (List.map_congr_left fun l _ ↦ stripLine_stripLine l)

/-- Nothing but what is kept matters to a compilation. -/
theorem ofText_congr {text text' : String} (h : strip text'.toList = strip text.toList)
    (defaults : Defaults) : Score.ofText defaults text' = Score.ofText defaults text := by
  have hdraft : Draft.ofText defaults text'.toList = Draft.ofText defaults text.toList := by
    rw [Draft.ofText, Draft.ofText, Draft.prepare, Draft.prepare, h]
  rw [Score.ofText, Score.ofText, hdraft]

/-- **Comments are invisible.**  A text with blanks and comments appended to its lines is kept, and
compiled, like the text itself, and what is kept of it is kept altogether.  The compiled score is
the same to the last diagnostic, since the two compilations start from the same lines. -/
theorem invisible_append {text : String} (hlength : ds.length = (lines text.toList).length)
    (hds : ∀ d ∈ ds, Trailer d) :
    strip (append text.toList ds) = strip text.toList ∧
      (∀ defaults, Score.ofText defaults (String.ofList (append text.toList ds)) =
        Score.ofText defaults text) ∧
      strip (strip text.toList) = strip text.toList := by
  have hstrip := strip_append hlength hds
  refine ⟨hstrip, ofText_congr ?_, strip_strip _⟩
  rwa [String.toList_ofList]

/-- A text with percent signs and slashes at the ends of lines. -/
def margin : String := "def p\nm 1 %\n/\np: c4 // %% x"

/-- What is appended to its lines. -/
def marginTrailers : List (List Char) :=
  ["\r".toList, [' '] ++ '%' :: '%' :: " a".toList, ['\t'] ++ '%' :: '%' :: "%/".toList,
    " \u2003\r".toList]

theorem invisible_append_margin :
    marginTrailers.length = (lines margin.toList).length ∧ (∀ d ∈ marginTrailers, Trailer d) ∧
      append margin.toList marginTrailers =
        "def p\r\nm 1 % %% a\n/\t%%%/\np: c4 // %% x \u2003\r".toList ∧
      strip margin.toList = "def p\nm 1 %\n/\np: c4 //".toList ∧
      strip (append margin.toList marginTrailers) = strip margin.toList ∧
      (∀ defaults, Score.ofText defaults (String.ofList (append margin.toList marginTrailers)) =
        Score.ofText defaults margin) ∧
      strip (strip margin.toList) = strip margin.toList := by
  have hlength : marginTrailers.length = (lines margin.toList).length := by decide +kernel
  have hds : ∀ d ∈ marginTrailers, Trailer d := by
    simp only [marginTrailers, List.forall_mem_cons]
    exact ⟨.blank (List.all_eq_true.mp (by decide)) (by decide),
      .comment (by decide) (List.all_eq_true.mp (by decide)) (by decide) (by decide),
      .comment (by decide) (List.all_eq_true.mp (by decide)) (by decide) (by decide),
      .blank (List.all_eq_true.mp (by decide)) (by decide), fun _ hd ↦ absurd hd List.not_mem_nil⟩
  exact ⟨hlength, hds, by decide +kernel, by decide +kernel, invisible_append hlength hds⟩

end Comment

end TextScore
