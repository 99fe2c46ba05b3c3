import TextScore.Proofs.Timeline.Play
import TextScore.Proofs.Token.First
import TextScore.Proofs.Token.Notation
import TextScore.Score.Compile

/-!
# What an annotation takes with it

An annotation goes up to its closing mark, but the token that it starts goes on to the next blank or
bar, and nothing is played of that token.  So an annotation keeps to itself if a blank, a bar or the
end of the line follows its closing mark; what stands there instead is lost without a report.

The documentation says that every token that is skipped is reported.  A note behind an annotation
without a blank between them, as in `<f>c4`, is skipped and not reported: it is no token, it is the
tail of one.  The theorem says exactly when that happens, and that nothing else is lost: what stands
behind the token is cut as if the annotation were not there, and each of its tokens is played, is a
grid or a bar, is an annotation again, or is reported as it is written.

## What is here

* `splitTokens_annotation` — the token that an annotation starts.
* `Token.read_of_not_annotation` — of all tokens only annotations are passed over in silence.
* `annotates_splitTokens` — which annotations keep to themselves, and what becomes of the others.
* `swallowed_forte` — a note that is lost.
-/

set_option autoImplicit false

namespace TextScore

open Text Cutting

variable {c mark : Char} {s t : List Char}

/-! ## The token of an annotation

The tail goes up to the next separator outside, and brackets in the tail count: a chord behind a
closing mark is lost as a whole. -/

/-- The token that an annotation starts: the annotation, and a tail up to the next separator
outside.  There is no tail if the closing mark is followed by a separator or by nothing. -/
theorem splitTokens_annotation {inner : List Char} (hc : annotationCloser? c = some mark)
    (hinner : mark ∉ inner) (s : List Char) :
    ∃ tail v, s = tail ++ v ∧
      splitTokens (c :: (inner ++ mark :: s)) =
        (c :: (inner ++ mark :: tail)) :: splitTokens v ∧
      (tail = [] ↔ ∀ d ∈ s.head?, IsSeparator d) := by
  have hstart (r : List Char) := runBefore_closed hc hinner [] r
  obtain ⟨tail, v, rfl, hleads, hhead, hrest⟩ := exists_leads_of_start (List.cons_ne_nil _ _) rfl
    rfl (hstart s) fun _ _ _ _ _ ↦ hstart _
  have hsplit (r : List Char) : c :: (inner ++ [mark]) ++ r = c :: (inner ++ mark :: r) := by simp
  rw [hsplit] at hleads
  refine ⟨tail, v, rfl, by rw [← hleads.splitTokens_eq]; simp, ?_, ?_⟩
  · rintro rfl
    exact hrest
  · intro hsep
    cases tail with
    | nil => rfl
    | cons d tail => exact absurd ⟨⟨rfl, rfl⟩, hsep d rfl⟩ (hhead d rfl)

/-- Every token of a line has its place there, and what follows it is cut on its own. -/
theorem exists_place {before behind : List (List Char)}
    (h : splitTokens s = before ++ t :: behind) :
    ∃ u v, s = u ++ (t ++ v) ∧ splitTokens (t ++ v) = t :: behind ∧ splitTokens v = behind := by
  induction s using splitTokens_induction generalizing before with
  | nil => exact absurd h (by simp [splitTokens, run, tokens, flush, start])
  | blank c s hc ih =>
    rw [splitTokens_cons_blank hc] at h
    obtain ⟨u, v, rfl, hv⟩ := ih h
    exact ⟨c :: u, v, rfl, hv⟩
  | token t' r hleads ih =>
    have hcut := hleads.splitTokens_eq
    rw [hcut] at h
    cases before with
    | nil =>
      obtain ⟨rfl, rfl⟩ := List.cons.inj h
      exact ⟨[], r, rfl, hcut, rfl⟩
    | cons b before =>
      obtain ⟨u, v, rfl, hv⟩ := ih (List.cons.inj h).2
      exact ⟨t' ++ u, v, (List.append_assoc _ _ _).symm, hv⟩

/-! ## What is passed over

Reading a token is by its first character, and going through the kinds shows that only the opening
marks of annotations lead to silence. -/

namespace Token

/-- A note that is no note is reported as it is written, and it does not start with a letter or a
number. -/
theorem readNote_cases (t : List Char) :
    (readNote t).sound?.isSome = true ∨
      readNote t = unknown (String.ofList t) ∧ t.head?.any isAlphanumeric = false := by
  fun_cases readNote t with
  | case1 => exact .inl rfl
  | case2 => exact .inl rfl
  | case3 note duration hsplit hrest hhead =>
    refine .inr ⟨rfl, ?_⟩
    have hnote : note = t.takeWhile (· != ':') := (congrArg Prod.fst hsplit).symm
    cases t with
    | nil => rfl
    | cons c r =>
      rw [Bool.not_eq_true, hnote] at hhead
      by_cases hc : c = ':'
      · exact hc ▸ show isAlphanumeric ':' = false by decide
      · rwa [List.takeWhile_cons_of_pos (by simpa using hc)] at hhead

/-- What starts with a letter, a number or an opening bracket takes time. -/
theorem sounds_of_head (h : t.head?.any (fun c ↦ isAlphanumeric c || c == '[') = true) :
    (read t).sound?.isSome = true := by
  obtain ⟨c, r, rfl⟩ : ∃ c r, t = c :: r := by
    cases t with
    | nil => cases h
    | cons c r => exact ⟨c, r, rfl⟩
  rcases (Bool.or_eq_true _ _).mp h with hc | hc
  · rw [read_of_isAlphanumeric hc]
    exact (readNote_cases (c :: r)).resolve_right fun hunknown ↦
      Bool.false_ne_true (hunknown.2.symm.trans hc)
  · obtain rfl : c = '[' := by simpa using hc
    rw [read, if_neg (cons_ne_barline (by decide) r)]
    rfl

/-- Of all tokens only annotations are passed over: any other one takes time, is a grid or a bar, or
is reported as it is written. -/
theorem read_of_not_annotation (h : ∀ c ∈ t.head?, annotationCloser? c = none) :
    (read t).sound?.isSome = true ∨ (read t).grid?.isSome = true ∨ read t = barline ∨
      read t = unknown (String.ofList t) := by
  fun_cases read t with
  | case1 => exact .inr (.inr (.inl rfl))
  | case2 => exact .inr (.inl rfl)
  | case3 => cases h '<' rfl
  | case4 => cases h '"' rfl
  | case5 => exact .inl rfl
  | case6 => exact (readNote_cases t).imp_right fun hunknown ↦ .inr (.inr hunknown.1)

end Token

/-! ## Annotations in a line -/

/-- What an annotation `c inner mark` does in a line: its token takes the tail with it, and the text
behind the token is cut into the tokens that follow. -/
structure Annotates (s : List Char) (c mark : Char) (inner tail : List Char)
    (behind : List (List Char)) : Prop where
  /-- The annotation stands in the line with its tail and what is behind; there is no tail if a
  separator or the end of the line follows the closing mark. -/
  place : ∃ u v, s = u ++ c :: (inner ++ mark :: (tail ++ v)) ∧ splitTokens v = behind ∧
    (tail = [] ↔ ∀ d ∈ (tail ++ v).head?, IsSeparator d)
  /-- It ends at the first closing mark. -/
  first : mark ∉ inner
  /-- Nothing is played of its token, and nothing reported. -/
  silent : ∀ m i p, Playing.step m i p (Token.read (c :: (inner ++ mark :: tail))) = pure p
  /-- A note, a rest or a chord behind it is played. -/
  sounds : ∀ w ∈ behind, w.head?.any (fun d ↦ isAlphanumeric d || d == '[') = true →
    (Token.read w).sound?.isSome = true
  /-- Whatever is behind it and is no annotation is played, is a grid or a bar, or is reported. -/
  heard : ∀ w ∈ behind, (∀ d ∈ w.head?, annotationCloser? d = none) →
    (Token.read w).sound?.isSome = true ∨ (Token.read w).grid?.isSome = true ∨
      Token.read w = .barline ∨ Token.read w = .unknown (String.ofList w)

/-- **What an annotation takes with it.**  A token that starts with an annotation and has its
closing mark is the annotation up to the first closing mark and a tail.  The mark is the last
character if, and only if, a blank, a bar or nothing follows it in the line.  If something else
follows, it is lost with the token; all that is behind the token is cut on its own and is played or
reported. -/
theorem annotates_splitTokens {before behind : List (List Char)} {r : List Char}
    (h : splitTokens s = before ++ (c :: r) :: behind) (hc : annotationCloser? c = some mark)
    (hr : mark ∈ r) :
    ∃ inner tail, r = inner ++ mark :: tail ∧ Annotates s c mark inner tail behind := by
  obtain ⟨inner, rest, rfl, hinner⟩ := List.eq_append_cons_of_mem hr
  obtain ⟨u, v, rfl, hcut, hbehind⟩ := exists_place h
  obtain ⟨tail, v', hs, hcut', halone⟩ := splitTokens_annotation hc hinner (rest ++ v)
  have hsplit : c :: (inner ++ mark :: rest) ++ v = c :: (inner ++ mark :: (rest ++ v)) := by simp
  rw [hsplit, hcut'] at hcut
  obtain ⟨htoken, -⟩ := List.cons.inj hcut
  obtain rfl : tail = rest := by simpa using htoken
  refine ⟨inner, tail, rfl, ⟨u, v, by rw [hsplit], hbehind, halone⟩, hinner, fun m i p ↦ ?_,
    fun w _ ↦ Token.sounds_of_head, fun w _ ↦ Token.read_of_not_annotation⟩
  rw [Token.read_annotation hc]
  rfl

/-- Two annotations, of which the second takes a note with it. -/
theorem annotates_splitTokens_forte :
    splitTokens "<p> c4 <f>d4 e4".toList =
        ["<p>".toList, "c4".toList] ++ "<f>d4".toList :: ["e4".toList] ∧
      annotationCloser? '<' = some '>' ∧ '>' ∈ "f>d4".toList ∧
      ∃ inner tail, "f>d4".toList = inner ++ '>' :: tail ∧
        Annotates "<p> c4 <f>d4 e4".toList '<' '>' inner tail ["e4".toList] := by
  have hcut : splitTokens "<p> c4 <f>d4 e4".toList =
      ["<p>".toList, "c4".toList] ++ ('<' :: "f>d4".toList) :: ["e4".toList] := by
    decide +kernel
  have hmark : '>' ∈ "f>d4".toList := by decide +kernel
  exact ⟨hcut, rfl, hmark, annotates_splitTokens hcut rfl hmark⟩

/-- A note right behind a closing mark is neither played nor reported: the first note of the score
is the second one, at time 0, and there is no diagnostic. -/
theorem swallowed_forte :
    splitTokens "<f>c4 d4".toList = ["<f>c4".toList, "d4".toList] ∧
      ∃ s, (Score.ofText {} "def p\nm 1\np: <f>c4 d4").1 = .ok s ∧
        s.events.map (fun n ↦ (n.pitch, n.start.toBits)) = [("D4", 0)] ∧ s.diagnostics = [] := by
  obtain ⟨s, hs, hscore⟩ := exists_ok_of_any
    (x := (Score.ofText {} "def p\nm 1\np: <f>c4 d4").1)
    (f := fun s ↦ s.events.map (fun n ↦ (n.pitch, n.start.toBits)) = [("D4", 0)] ∧
      s.diagnostics = [])
    (by decide +kernel)
  exact ⟨by decide +kernel, s, hs, of_decide_eq_true hscore⟩

end TextScore
