import TextScore.Proofs.Text.Class
import TextScore.Proofs.Token.Cut

/-!
# Tokens as they are written

Every kind of token has a notation.  Tokens that are written in it, with single spaces between them,
are read as the tokens that they are.

A line is cut and then each part is read, and the two steps have to be right together: a part must
come out of the cutting whole, and then be read as what was written.  The two are separate lemmas,
and the law follows by mapping one over the result of the other.

## What is here

* `Token.written` — the notation of a token.
* `Token.Canonical` — the tokens whose notation is theirs alone.
* `Token.whole_written` — the notation of a token is cut out whole.
* `Token.read_written` — and it is read as that token.
* `tokenize_written` — so a line of written tokens is read as these tokens.

Not every token can be written.  A note whose text has a blank in it would be two tokens, a note
that is called `r` would be a rest, and a duration code with a numeric front, such as `4x`, would be
cut down to it.  `Canonical` excludes just such cases, kind by kind.  An unknown token has no
notation of its own and is not canonical.
-/

set_option autoImplicit false

namespace TextScore

open Text

namespace Token

/-- The duration behind a note: a colon and the code, if there is one. -/
def durationText : Option String → List Char
  | none => []
  | some code => ':' :: code.toList

/-- The notation of a token. -/
def written : Token → List Char
  | pitch p d => p.toList ++ durationText d
  | chord ps d => '[' :: (joinWith [' '] (ps.map String.toList) ++ ']' :: durationText d)
  | rest d => 'r' :: durationText d
  | grid code => '!' :: code.toList
  | barline => ['|']
  | marking s => s.toList
  | unknown s => s.toList

/-- The code of a duration: plain characters, either all of them numeric or the first one not. -/
structure IsCode (s : List Char) : Prop where
  /-- It is not empty. -/
  ne_nil : s ≠ []
  /-- It has plain characters only. -/
  plain : ∀ c ∈ s, isPlain c = true
  /-- No numeric code stands at the front of a longer one. -/
  whole : (∀ c ∈ s, isDurationChar c = true) ∨ ∀ c ∈ s.head?, isDurationChar c = false

/-- If there is a duration, it has a code that can be written. -/
def IsDuration (d : Option String) : Prop := ∀ code ∈ d, IsCode code.toList

/-- A note of a chord: not empty, without blanks and brackets. -/
def IsMember (p : List Char) : Prop :=
  p ≠ [] ∧ ∀ c ∈ p, isBlank c = false ∧ isBracket c = false

/-- The tokens whose notation is theirs alone. -/
inductive Canonical : Token → Prop
  | pitch {p : String} {d : Option String} (hhead : p.toList.head?.any isAlphanumeric = true)
      (hrest : p ≠ "r" ∧ p ≠ "R") (hp : ∀ c ∈ p.toList, isPlain c = true ∧ c ≠ ':')
      (hd : IsDuration d) : Canonical (.pitch p d)
  | chord {ps : List String} {d : Option String} (hps : ∀ p ∈ ps, IsMember p.toList)
      (hd : IsDuration d) : Canonical (.chord ps d)
  | rest {d : Option String} (hd : IsDuration d) : Canonical (.rest d)
  | grid {code : String} (hne : code.toList ≠ []) (hcode : ∀ c ∈ code.toList, isPlain c = true) :
      Canonical (.grid code)
  | barline : Canonical .barline
  | marking {t : String} {c mark : Char} {s : List Char} (ht : t.toList = c :: (s ++ [mark]))
      (hc : annotationCloser? c = some mark) (hs : mark ∉ s) : Canonical (.marking t)

variable {d : Option String} {p : String} {ps : List String} {s : List Char} {c : Char}

/-! ## Notation is cut out whole

Notes, rests and grids are plain characters; chords are brackets with plain characters behind them;
annotations end with their closing mark.  For each of the three there is a lemma on whole tokens. -/

theorem plain_durationText (hd : IsDuration d) : ∀ c ∈ durationText d, isPlain c = true := by
  cases d with
  | none => exact fun c hc ↦ absurd hc List.not_mem_nil
  | some code =>
    rw [durationText, List.forall_mem_cons]
    exact ⟨by decide, (hd code rfl).plain⟩

/-- A note that starts with a letter or a number is not empty, and it starts no annotation. -/
theorem exists_cons_of_head (h : s.head?.any isAlphanumeric = true) :
    ∃ c r, s = c :: r ∧ isAlphanumeric c = true := by
  cases s with
  | nil => cases h
  | cons c r => exact ⟨c, r, rfl, h⟩

theorem isBracket_of_mem_joinWith (hps : ∀ p ∈ ps, IsMember p.toList)
    (hc : c ∈ joinWith [' '] (ps.map String.toList)) : isBracket c = false := by
  rcases mem_of_mem_joinWith hc with hc | ⟨s, hs, hc⟩
  · rw [List.mem_singleton.mp hc]
    decide
  · obtain ⟨p, hp, rfl⟩ := List.mem_map.mp hs
    exact ((hps p hp).2 c hc).2

/-- A token is cut out of a line as it was written. -/
theorem whole_written {t : Token} (h : t.Canonical) : Whole t.written := by
  cases h with
  | @pitch p d hhead hrest hp hd =>
    obtain ⟨c, s, hs, hc⟩ := exists_cons_of_head hhead
    rw [written, hs, List.cons_append]
    refine whole_plain (Cutting.annotationCloser?_eq_none (by decide) hc) ?_
    rw [← List.cons_append, ← hs, List.forall_mem_append]
    exact ⟨fun c hc ↦ (hp c hc).1, plain_durationText hd⟩
  | chord hps hd =>
    exact whole_chord (fun c hc ↦ isBracket_of_mem_joinWith hps hc) (plain_durationText hd)
  | rest hd =>
    refine whole_plain (by decide) ?_
    rw [List.forall_mem_cons]
    exact ⟨by decide, plain_durationText hd⟩
  | grid hne hcode =>
    refine whole_plain (by decide) ?_
    rw [List.forall_mem_cons]
    exact ⟨by decide, hcode⟩
  | barline => exact whole_barline
  | marking ht hc hs =>
    rw [written, ht]
    exact whole_annotation hc hs

/-! ## Notation is read as it is meant

The steps of the reader are undone one by one: the code behind the first colon, the notes between
the brackets, the code behind an exclamation mark. -/

theorem durationCode_eq_self (hs : IsCode s) : durationCode s = s := by
  rcases hs.whole with h | h
  · have htake : s.takeWhile isDurationChar = s := by
      simpa using (span_append (r := []) h fun c hc ↦ nomatch hc).1
    rw [durationCode, htake, if_neg (by simpa using hs.ne_nil)]
  · have htake : s.takeWhile isDurationChar = [] :=
      (span_append (s := []) (fun _ hc ↦ absurd hc List.not_mem_nil) h).1
    rw [durationCode, htake]
    rfl

/-- A note ends at its first colon. -/
theorem splitDuration_append (hs : ':' ∉ s) (hd : IsDuration d) :
    splitDuration (s ++ durationText d) = (s, d.map String.toList) := by
  have hcolon : ∀ c ∈ (durationText d).head?, c = ':' := by
    intro c hc
    cases d with
    | none => cases hc
    | some code =>
      cases hc
      rfl
  obtain ⟨htake, hdrop⟩ := span_until hs hcolon
  rw [splitDuration, htake, hdrop]
  cases d with
  | none => rfl
  | some code =>
    have hcode := durationCode_eq_self (hd code rfl)
    rw [durationText]
    cases hlist : code.toList with
    | nil => exact absurd hlist (hd code rfl).ne_nil
    | cons c r =>
      rw [hlist] at hcode
      rw [Option.map_some, hlist]
      dsimp only
      rw [hcode]

/-- The notes of a chord end at its last closing bracket. -/
theorem splitChord_append {inner suffix : List Char} (h : ']' ∉ suffix) :
    splitChord (inner ++ ']' :: suffix) = (inner, suffix) := by
  have hreverse : (inner ++ ']' :: suffix).reverse = suffix.reverse ++ (']' :: inner.reverse) := by
    simp
  obtain ⟨htake, hdrop⟩ := span_until (r := ']' :: inner.reverse) (mt List.mem_reverse.mp h)
    fun c hc ↦ by cases hc; rfl
  rw [splitChord, hreverse, htake, hdrop]
  dsimp only
  rw [List.reverse_reverse, List.reverse_reverse]

/-- The notes between the brackets are the words there. -/
theorem chordPitches_joinWith (hps : ∀ p ∈ ps, IsMember p.toList) :
    chordPitches (joinWith [' '] (ps.map String.toList)) = ps.map String.toList := by
  have hwords : words (joinWith [' '] (ps.map String.toList)) = ps.map String.toList := by
    rw [words_joinWith, List.flatMap_map]
    induction ps with
    | nil => rfl
    | cons p ps ih =>
      rw [List.forall_mem_cons] at hps
      rw [List.flatMap_cons, words_of_not_blank hps.1.1 fun c hc ↦ (hps.1.2 c hc).1, ih hps.2]
      rfl
  have hbrackets : (ps.map String.toList).map (·.filter fun c ↦ !isBracket c) =
      ps.map String.toList := by
    rw [List.map_map]
    refine List.map_congr_left fun p hp ↦ List.filter_eq_self.mpr fun c hc ↦ ?_
    rw [((hps p hp).2 c hc).2]
    rfl
  rw [chordPitches, hwords, hbrackets]
  refine List.filter_eq_self.mpr (List.forall_mem_map.mpr fun p hp ↦ ?_)
  rw [Bool.not_eq_true', List.isEmpty_eq_false_iff]
  exact (hps p hp).1

theorem cons_ne_barline (h : c ≠ '|') (s : List Char) : c :: s ≠ ['|'] :=
  fun heq ↦ h (List.cons.inj heq).1

/-- What starts with a letter or a number is a note. -/
theorem read_of_isAlphanumeric (h : isAlphanumeric c = true) (s : List Char) :
    read (c :: s) = readNote (c :: s) := by
  have hne {d : Char} (hd : isAlphanumeric d = false) : c ≠ d := by
    rintro rfl
    exact Bool.false_ne_true (hd.symm.trans h)
  have hgrid : gridCode? (c :: s) = none := by
    rw [gridCode?.eq_def]
    split
    case h_1 heq => exact absurd (List.cons.inj heq).1 (hne (by decide))
    case h_2 => rfl
  rw [read.eq_def, if_neg (cons_ne_barline (hne (by decide)) s), hgrid]
  dsimp only
  split
  case h_1 heq => exact absurd (List.cons.inj heq).1 (hne (by decide))
  case h_2 heq => exact absurd (List.cons.inj heq).1 (hne (by decide))
  case h_3 heq => exact absurd (List.cons.inj heq).1 (hne (by decide))
  case h_4 => rfl

theorem read_annotation {mark : Char} (h : annotationCloser? c = some mark) (s : List Char) :
    read (c :: s) = marking (String.ofList (c :: s)) := by
  rw [annotationCloser?] at h
  split at h
  case isTrue hc =>
    subst hc
    rw [read, if_neg (cons_ne_barline (by decide) s)]
    rfl
  case isFalse =>
    split at h
    case isTrue hc =>
      subst hc
      rw [read, if_neg (cons_ne_barline (by decide) s)]
      rfl
    case isFalse => cases h

theorem isBlank_of_isPlain (h : isPlain c = true) : isBlank c = false := by
  simp only [isPlain, Bool.and_eq_true, Bool.not_eq_true'] at h
  exact h.1.1

theorem gridCode?_plain (hne : s ≠ []) (hs : ∀ c ∈ s, isPlain c = true) :
    gridCode? ('!' :: s) = some s := by
  have hlast : s.getLast? ≠ some '\n' := by
    intro h
    exact absurd (hs _ (List.mem_of_getLast? h)) (by decide)
  have hblank : s.any isBlank = false :=
    List.any_eq_false.mpr fun c hc ↦ by simp [isBlank_of_isPlain (hs c hc)]
  rw [gridCode?, dropFinalLineFeed, if_neg hlast, hblank, Bool.or_false,
    if_neg (by simpa using hne)]

theorem map_ofList_toList (d : Option String) :
    (d.map String.toList).map String.ofList = d := by
  cases d with
  | none => rfl
  | some code => exact congrArg some String.ofList_toList

/-- A token is read as it was meant. -/
theorem read_written {t : Token} (h : t.Canonical) : read t.written = t := by
  cases h with
  | @pitch p d hhead hrest hp hd =>
    obtain ⟨c, s, hs, hc⟩ := exists_cons_of_head hhead
    have hcolon : ':' ∉ p.toList := fun hmem ↦ (hp _ hmem).2 rfl
    -- the first character decides that it is a note
    have hread : read (pitch p d).written = readNote (p.toList ++ durationText d) := by
      rw [written, hs, List.cons_append, read_of_isAlphanumeric hc]
    have hne : ¬(p.toList = ['r'] ∨ p.toList = ['R']) := by
      rintro (heq | heq)
      · exact hrest.1 (String.toList_inj.mp heq)
      · exact hrest.2 (String.toList_inj.mp heq)
    rw [hread, readNote, splitDuration_append hcolon hd]
    dsimp only
    rw [if_neg hne, if_pos hhead, map_ofList_toList, String.ofList_toList]
  | @chord ps d hps hd =>
    have hbracket : ']' ∉ durationText d := fun hmem ↦
      absurd (plain_durationText hd _ hmem) (by decide)
    have hsuffix := splitDuration_append (s := []) List.not_mem_nil hd
    have hread : read (chord ps d).written =
        chord ((chordPitches (joinWith [' '] (ps.map String.toList))).map String.ofList)
          ((splitDuration (durationText d)).2.map String.ofList) := by
      rw [written, read, if_neg (cons_ne_barline (by decide) _), splitChord_append hbracket]
      rfl
    rw [List.nil_append] at hsuffix
    rw [hread, chordPitches_joinWith hps, hsuffix, map_ofList_toList, List.map_map]
    congr 1
    exact List.map_id'' (fun _ ↦ String.ofList_toList) ps
  | @rest d hd =>
    have hsplit := splitDuration_append (s := ['r']) (by decide) hd
    rw [List.singleton_append] at hsplit
    rw [written, read_of_isAlphanumeric (by decide), readNote, hsplit]
    dsimp only
    rw [if_pos (.inl rfl), map_ofList_toList]
  | @grid code hne hcode =>
    rw [written, read.eq_def, if_neg (cons_ne_barline (by decide) _), gridCode?_plain hne hcode]
    exact congrArg grid String.ofList_toList
  | barline => rfl
  | marking ht hc hs => rw [written, ht, read_annotation hc, ← ht, String.ofList_toList]

end Token

/-- **Written tokens are read back.**  Tokens that are written with single spaces between them are
read as these tokens, however many there are and whatever stands beside what. -/
theorem tokenize_written {ts : List Token} (h : ∀ t ∈ ts, t.Canonical) :
    tokenize (joinWith [' '] (ts.map Token.written)) = ts := by
  have hwhole : ∀ s ∈ ts.map Token.written, Whole s :=
    List.forall_mem_map.mpr fun t ht ↦ Token.whole_written (h t ht)
  rw [tokenize, splitTokens_joinWith hwhole, List.map_map]
  calc ts.map (Token.read ∘ Token.written) = ts.map id :=
        List.map_congr_left fun t ht ↦ Token.read_written (h t ht)
    _ = ts := List.map_id ts

/-- Brackets and bars inside annotations, a bar and a quote inside a chord, and a chord without
notes. -/
def mixedLine : List Token :=
  [.grid "16", .pitch "c#4" (some "4."), .marking "<[ |>", .chord ["a|", "\"b"] (some "w:"),
    .barline, .rest none, .marking "\"d ]\"", .chord [] none, .pitch "rr" none]

theorem tokenize_mixedLine :
    (∀ t ∈ mixedLine, t.Canonical) ∧
      joinWith [' '] (mixedLine.map Token.written) =
        "!16 c#4:4. <[ |> [a| \"b]:w: | r \"d ]\" [] rr".toList ∧
      tokenize (joinWith [' '] (mixedLine.map Token.written)) = mixedLine := by
  have hnone : Token.IsDuration none := fun _ hcode ↦ nomatch hcode
  have hsome {code : String} (hcode : Token.IsCode code.toList) : Token.IsDuration (some code) := by
    rintro _ ⟨⟩
    exact hcode
  have hplain (s : List Char) (h : s.all isPlain = true) : ∀ c ∈ s, isPlain c = true :=
    List.all_eq_true.mp h
  have hpitch (s : List Char) (h : s.all (fun c ↦ isPlain c && c != ':') = true) :
      ∀ c ∈ s, isPlain c = true ∧ c ≠ ':' := by simpa using h
  have hmember (s : List Char) (hne : s ≠ [])
      (h : s.all (fun c ↦ !isBlank c && !isBracket c) = true) : Token.IsMember s :=
    ⟨hne, by simpa using h⟩
  have hnumeric : Token.IsCode "4.".toList :=
    ⟨by decide +kernel, hplain _ (by decide +kernel),
      .inl (List.all_eq_true.mp (by decide +kernel))⟩
  have hnamed : Token.IsCode "w:".toList :=
    ⟨by decide +kernel, hplain _ (by decide +kernel), .inr fun c hc ↦ by cases hc; decide⟩
  have hmembers : ∀ p ∈ ["a|", "\"b"], Token.IsMember p.toList := by
    simp only [List.forall_mem_cons]
    exact ⟨hmember _ (by decide +kernel) (by decide +kernel),
      hmember _ (by decide +kernel) (by decide +kernel), fun _ hp ↦ nomatch hp⟩
  have hangled : "<[ |>".toList = '<' :: (['[', ' ', '|'] ++ ['>']) := by decide +kernel
  have hquoted : "\"d ]\"".toList = '"' :: (['d', ' ', ']'] ++ ['"']) := by decide +kernel
  have hcanonical : ∀ t ∈ mixedLine, t.Canonical := by
    simp only [mixedLine, List.forall_mem_cons]
    exact ⟨.grid (by decide +kernel) (hplain _ (by decide +kernel)),
      .pitch (by decide +kernel) (by decide) (hpitch _ (by decide +kernel)) (hsome hnumeric),
      .marking hangled rfl (by decide), .chord hmembers (hsome hnamed), .barline, .rest hnone,
      .marking hquoted rfl (by decide), .chord (fun _ hp ↦ nomatch hp) hnone,
      .pitch (by decide +kernel) (by decide) (hpitch _ (by decide +kernel)) hnone,
      fun _ ht ↦ nomatch ht⟩
  exact ⟨hcanonical, by decide +kernel, tokenize_written hcanonical⟩

end TextScore
