import Mathlib.Data.List.TakeWhile
import TextScore.Proofs.Ensemble.Notation
import TextScore.Proofs.Measure.LastActive
import TextScore.Proofs.Text.Scan

/-!
# A title and a composer on one line

A meta block on one line names the title and the composer in quotes.  Whatever stands in the quotes,
nothing else is set, for the tempo and the time signature are looked for outside of quotes.  The
composer is looked for everywhere, though: a title that ends in the key of the composer is taken for
one, and then the composer is what stands between the two quoted texts.

The documentation says that a quoted text may be anything.  It may, but for one kind of title: one
that ends in the word `composer`, a colon and blanks.  The search goes through the line from the
left and takes the first key with a quoted text behind it, and behind such a title the quotation
mark that ends it begins the text `composer: ` up to the next one.  The theorem has the exact
condition, and it says that the title is right in every case and that nothing else is set.

## What is here

* `EndsInKey` — a text ends in a key, a colon and blanks.
* `findBehind?_of_endsInKey`, `findBehind?_of_not_endsInKey` — a search comes to a quoted text.
* `namesLine`, `composerIn` — the line, and the composer that is read from it.
* `Segmenting.names_readLine` — what the line sets, and that it sets nothing else.
* `Segmenting.misread_anon` — a title that is taken for the key of the composer.
-/

set_option autoImplicit false

namespace TextScore

open Text Number

/-! ## A search in front of a quoted text

A search tries every place at which a word begins, from the left.  In front of a quoted text what is
tried comes to nothing, unless it is a key with nothing but a colon and blanks up to the quotation
mark. -/

/-- The text is a colon with blanks around it. -/
def isColon (s : List Char) : Bool :=
  match s.dropWhile isBlank with
  | ':' :: r => r.all isBlank
  | _ => false

/-- At the end of a text stand the keyword, as a word of its own, and a colon with blanks around
it. -/
def EndsInKey (keyword s : List Char) : Prop :=
  ∃ i, i < s.length ∧ (s.take i).getLast?.any isWord = false ∧
    (dropKeyword? keyword (s.drop i)).any isColon = true

instance (keyword s : List Char) : Decidable (EndsInKey keyword s) :=
  inferInstanceAs (Decidable (∃ i, i < s.length ∧ _))

variable {α : Type} {keyword : List Char} {f : List Char → Option α}

/-- What is tried at one place. -/
def tryBehind? (keyword : List Char) (f : List Char → Option α) (before : Bool) (s : List Char) :
    Option α :=
  (if before then none else dropKeyword? keyword s).bind f

theorem findBehind?_of_some {b : Bool} {c : Char} {s : List Char} {a : α}
    (h : tryBehind? keyword f b (c :: s) = some a) : findBehind? keyword f b (c :: s) = some a := by
  rw [tryBehind?] at h
  rw [findBehind?, h]

theorem findBehind?_of_none {b : Bool} {c : Char} {s : List Char}
    (h : tryBehind? keyword f b (c :: s) = none) :
    findBehind? keyword f b (c :: s) = findBehind? keyword f (isWord c) s := by
  rw [tryBehind?] at h
  rw [findBehind?, h]

/-- A search that finds nothing in the front of a text goes on behind it. -/
theorem findBehind?_append_of_none {b : Bool} {u s : List Char}
    (h : ∀ v c w, u = v ++ c :: w → tryBehind? keyword f (wordBehind b v) (c :: (w ++ s)) = none) :
    findBehind? keyword f b (u ++ s) = findBehind? keyword f (wordBehind b u) s := by
  induction u generalizing b with
  | nil => rfl
  | cons c u ih =>
    have hstep : tryBehind? keyword f b (c :: (u ++ s)) = none := h [] c u rfl
    rw [List.cons_append, findBehind?_of_none hstep, wordBehind_cons, ih]
    intro v d w hu
    rw [← wordBehind_cons b]
    exact h (c :: v) d w (congrArg (c :: ·) hu)

/-- A search finds what it finds first; that need not be at the place at which `h` finds something,
but it is the same. -/
theorem findBehind?_append_of_some {b : Bool} {u s : List Char} {a : α}
    (hsame : ∀ v c w, u = v ++ c :: w →
      ∀ a' ∈ tryBehind? keyword f (wordBehind b v) (c :: (w ++ s)), a' = a)
    (h : ∃ v c w, u = v ++ c :: w ∧
      tryBehind? keyword f (wordBehind b v) (c :: (w ++ s)) = some a) :
    findBehind? keyword f b (u ++ s) = some a := by
  -- the first place where something is found need not be the given one, but it has the same value
  induction u generalizing b with
  | nil =>
    obtain ⟨v, c, w, hu, -⟩ := h
    simp at hu
  | cons c u ih =>
    rw [List.cons_append]
    cases hstep : tryBehind? keyword f b (c :: (u ++ s)) with
    | some a' => rw [findBehind?_of_some hstep, hsame [] c u rfl a' hstep]
    | none =>
      rw [findBehind?_of_none hstep]
      refine ih (fun v d w hu ↦ ?_) ?_
      · rw [← wordBehind_cons b]
        exact hsame (c :: v) d w (congrArg (c :: ·) hu)
      · obtain ⟨v, d, w, hu, hfound⟩ := h
        cases v with
        | nil =>
          obtain ⟨rfl, rfl⟩ := List.cons.inj hu
          cases hstep.symm.trans hfound
        | cons e v =>
          obtain ⟨rfl, htail⟩ := List.cons.inj hu
          refine ⟨v, d, w, htail, ?_⟩
          rwa [← wordBehind_cons b]

/-- A keyword does not reach into a quoted text. -/
theorem dropKeyword?_append_quote {k : List Char} (hk : k.all isLetter = true) (s u : List Char) :
    dropKeyword? k (s ++ '"' :: u) = (dropKeyword? k s).map (· ++ '"' :: u) := by
  have hquote {a : Char} (ha : isLetter a = true) : isSpelling a '"' = false := by
    by_contra hspell
    have hword := isWord_of_isSpelling ha (Bool.not_eq_false _ ▸ hspell)
    exact absurd hword (by decide)
  induction k generalizing s with
  | nil => rfl
  | cons a k ih =>
    rw [List.all_cons, Bool.and_eq_true] at hk
    cases s with
    | nil => simp [dropKeyword?, hquote hk.1]
    | cons c s =>
      rw [List.cons_append, dropKeyword?, dropKeyword?]
      split
      · exact ih hk.2 s
      · rfl

/-- A value in front of a quoted text is a colon, and then the quoted text is the value. -/
theorem readQuotedValue?_append {s : List Char} (hs : '"' ∉ s) (u : List Char) :
    readQuotedValue? (s ++ '"' :: u) =
      if isColon s then (dropQuoted? ('"' :: u)).map Prod.fst else none := by
  have hquote : isBlank '"' = false := by decide
  have hskip (t : List Char) : (t ++ '"' :: u).dropWhile isBlank =
      t.dropWhile isBlank ++ '"' :: u := by
    rw [List.dropWhile_append]
    split
    case isTrue hempty =>
      rw [List.isEmpty_iff.mp hempty, List.nil_append,
        List.dropWhile_cons_of_neg (by simp [hquote])]
    case isFalse => rfl
  have hmem : '"' ∉ s.dropWhile isBlank :=
    fun hc ↦ hs ((List.dropWhile_suffix isBlank).subset hc)
  rw [readQuotedValue?, hskip, isColon]
  -- behind the blanks a colon has to follow, and behind the colon only blanks up to the quote
  generalize s.dropWhile isBlank = t at hmem
  cases t with
  | nil => rfl
  | cons d t =>
    rw [List.mem_cons, not_or] at hmem
    by_cases hd : d = ':'
    · subst hd
      show (dropQuoted? ((t ++ '"' :: u).dropWhile isBlank)).map Prod.fst =
        if t.all isBlank = true then _ else _
      rw [hskip]
      by_cases hblank : t.all isBlank = true
      · rw [if_pos hblank, List.dropWhile_eq_nil_iff.mpr (List.all_eq_true.mp hblank)]
        rfl
      · rw [if_neg hblank]
        have hne : t.dropWhile isBlank ≠ [] :=
          fun hnil ↦ hblank (List.all_eq_true.mpr (List.dropWhile_eq_nil_iff.mp hnil))
        obtain ⟨e, t', ht⟩ := List.exists_cons_of_ne_nil hne
        have he : e ∈ t := (List.dropWhile_suffix isBlank).subset (ht ▸ List.mem_cons_self)
        rw [ht, dropQuoted?_eq_none, Option.map_none]
        rintro _ ⟨⟩ rfl
        exact hmem.2 he
    · simp [hd]

variable {u : List Char}

theorem tryBehind?_quote (hk : keyword.all isLetter = true) (hu : '"' ∉ u) (b : Bool)
    (s : List Char) :
    tryBehind? keyword readQuotedValue? b (u ++ '"' :: s) =
      if b = false ∧ (dropKeyword? keyword u).any isColon = true then
        (dropQuoted? ('"' :: s)).map Prod.fst
      else none := by
  cases b with
  | true => rfl
  | false =>
    rw [tryBehind?, if_neg Bool.false_ne_true, dropKeyword?_append_quote hk]
    cases hr : dropKeyword? keyword u with
    | none => rfl
    | some r =>
      have hmem : '"' ∉ r :=
        fun hc ↦ hu (List.drop_subset _ _ (dropKeyword?_eq_drop hr ▸ hc))
      rw [Option.map_some, Option.bind_some, readQuotedValue?_append hmem]
      simp

theorem endsInKey_iff : EndsInKey keyword u ↔ ∃ v c w, u = v ++ c :: w ∧
    wordBehind false v = false ∧ (dropKeyword? keyword (c :: w)).any isColon = true := by
  constructor
  · rintro ⟨i, hi, hword, hkey⟩
    refine ⟨u.take i, u[i], u.drop (i + 1), ?_, ?_, ?_⟩
    · rw [List.getElem_cons_drop, List.take_append_drop]
    · rwa [wordBehind_false]
    · rwa [List.getElem_cons_drop]
  · rintro ⟨v, c, w, rfl, hword, hkey⟩
    refine ⟨v.length, by simp, ?_, ?_⟩
    · rwa [List.take_left, ← wordBehind_false]
    · rwa [List.drop_left]

/-- What is tried in a text in front of a quoted one comes to nothing, or to the quoted text at a
key at the end. -/
theorem tryBehind?_quote_iff (hk : keyword.all isLetter = true) (hu : '"' ∉ u) {v w : List Char}
    {c : Char} (h : u = v ++ c :: w) {s a r : List Char} (hs : dropQuoted? ('"' :: s) = some (a, r))
    {a' : List Char} :
    tryBehind? keyword readQuotedValue? (wordBehind false v) (c :: (w ++ '"' :: s)) = some a' ↔
      (wordBehind false v = false ∧ (dropKeyword? keyword (c :: w)).any isColon = true) ∧
        a' = a := by
  have hmem : '"' ∉ c :: w := fun hc ↦ hu (h ▸ List.mem_append_right v hc)
  rw [← List.cons_append, tryBehind?_quote hk hmem, hs, Option.map_some]
  split
  case isTrue hkey => simp [hkey, eq_comm]
  case isFalse hkey => simp [hkey]

/-- A text that ends in the key makes the next quoted text its value. -/
theorem findBehind?_of_endsInKey (hk : keyword.all isLetter = true) (hu : '"' ∉ u)
    {s a r : List Char} (hs : dropQuoted? ('"' :: s) = some (a, r)) (h : EndsInKey keyword u) :
    findBehind? keyword readQuotedValue? false (u ++ '"' :: s) = some a := by
  refine findBehind?_append_of_some (fun v c w huv a' ha' ↦ ?_) ?_
  · exact ((tryBehind?_quote_iff hk hu huv hs).mp ha').2
  · obtain ⟨v, c, w, huv, hkey⟩ := endsInKey_iff.mp h
    exact ⟨v, c, w, huv, (tryBehind?_quote_iff hk hu huv hs).mpr ⟨hkey, rfl⟩⟩

/-- A text that does not end in the key is passed over, with the quotation mark behind it. -/
theorem findBehind?_of_not_endsInKey (hk : keyword.all isLetter = true) (hne : keyword ≠ [])
    (hu : '"' ∉ u) {s a r : List Char} (hs : dropQuoted? ('"' :: s) = some (a, r))
    (h : ¬EndsInKey keyword u) :
    findBehind? keyword readQuotedValue? false (u ++ '"' :: s) =
      findBehind? keyword readQuotedValue? false s := by
  have hquote : isWord '"' = false := by decide
  have hnone : tryBehind? keyword readQuotedValue? (wordBehind false u) ('"' :: s) = none := by
    have hnil : (dropKeyword? keyword []).any isColon = false := by
      obtain ⟨k, ks, rfl⟩ := List.exists_cons_of_ne_nil hne
      rfl
    rw [← List.nil_append ('"' :: s), tryBehind?_quote hk List.not_mem_nil, hnil]
    simp
  rw [findBehind?_append_of_none, findBehind?_of_none hnone, hquote]
  intro v c w huv
  cases htry : tryBehind? keyword readQuotedValue? (wordBehind false v) (c :: (w ++ '"' :: s)) with
  | none => rfl
  | some a' =>
    have hkey := ((tryBehind?_quote_iff hk hu huv hs).mp htry).1
    exact absurd (endsInKey_iff.mpr ⟨v, c, w, huv, hkey⟩) h

/-! ## Texts with their quoted parts emptied

The tempo and the time signature are looked for in the line with empty quotes, which is the same for
all titles and composers. -/

theorem unquote_append (hu : '"' ∉ u) (s : List Char) : unquote (u ++ s) = u ++ unquote s := by
  have hcut : quotedTexts.pieces (u ++ s) = u.map .plain ++ quotedTexts.pieces s := by
    refine Recogniser.pieces_append_of_none (fun _ _ ↦ rfl) fun v c w huv ↦ ?_
    refine dropQuoted?_eq_none ?_
    rintro _ ⟨⟩ rfl
    exact hu (by simp [huv])
  rw [unquote, hcut, fill_append, fill_map_plain, unquote]

theorem unquote_quote (hu : '"' ∉ u) (s : List Char) :
    unquote ('"' :: (u ++ '"' :: s)) = '"' :: '"' :: unquote s := by
  have hread : quotedTexts.read? false ('"' :: (u ++ '"' :: s)) = some (u, s) :=
    dropQuoted?_append hu s
  rw [unquote, Recogniser.pieces_of_some hread, fill_found]
  rfl

/-! ## The line -/

/-- What stands in front of the title. -/
def frontText : List Char := "meta \x7b title: ".toList

/-- What stands between the title and the composer. -/
def middleText : List Char := " composer: ".toList

/-- What stands behind the composer. -/
def backText : List Char := " \x7d".toList

/-- A meta block on one line, with a title and a composer. -/
def namesLine (title composer : List Char) : List Char :=
  frontText ++ '"' :: (title ++ '"' :: (middleText ++ '"' :: (composer ++ '"' :: backText)))

/-- The composer that is read from the line: what stands between the two quoted texts, if the title
ends in the key of the composer. -/
def composerIn (title composer : List Char) : List Char :=
  if EndsInKey "composer".toList title then middleText else composer

variable {title composer : List Char}

theorem unquote_namesLine (ht : '"' ∉ title) (hc : '"' ∉ composer) :
    unquote (namesLine title composer) =
      frontText ++ '"' :: '"' :: (middleText ++ '"' :: '"' :: backText) := by
  have hback : unquote backText = backText := by decide +kernel
  rw [namesLine, unquote_append (by decide), unquote_quote ht, unquote_append (by decide),
    unquote_quote hc, hback]

theorem findTempo?_namesLine (ht : '"' ∉ title) (hc : '"' ∉ composer) :
    findTempo? (namesLine title composer) = none := by
  rw [findTempo?, unquote_namesLine ht hc]
  rfl

theorem findTimeSignature?_namesLine (ht : '"' ∉ title) (hc : '"' ∉ composer) :
    findTimeSignature? (namesLine title composer) = none := by
  rw [findTimeSignature?, unquote_namesLine ht hc]
  rfl

theorem findTitle?_namesLine (ht : '"' ∉ title) (composer : List Char) :
    findTitle? (namesLine title composer) = some title :=
  findBehind?_of_endsInKey rfl (by decide) (dropQuoted?_append ht _) (by decide)

/-- The composer is read in the title, or it is read behind it. -/
theorem findComposer?_namesLine (ht : '"' ∉ title) (hc : '"' ∉ composer) :
    findComposer? (namesLine title composer) = some (composerIn title composer) := by
  have hletters : "composer".toList.all isLetter = true := rfl
  have hbetween : '"' ∉ middleText := by decide
  rw [findComposer?, namesLine, findBehind?_of_not_endsInKey hletters (by decide) (by decide)
    (dropQuoted?_append ht _) (by decide), composerIn]
  split
  case isTrue hkey =>
    exact findBehind?_of_endsInKey hletters ht (dropQuoted?_append hbetween _) hkey
  case isFalse hkey =>
    rw [findBehind?_of_not_endsInKey hletters (by decide) ht (dropQuoted?_append hbetween _) hkey]
    exact findBehind?_of_endsInKey hletters hbetween (dropQuoted?_append hc _) (by decide)

/-- The line starts with the keyword of a meta block, and has a closing brace behind it. -/
theorem exists_namesLine (title composer : List Char) :
    ∃ r, namesLine title composer = "meta".toList ++ ' ' :: r ∧ '\x7d' ∈ r := by
  have hfront : frontText = "meta".toList ++ ' ' :: "\x7b title: ".toList := by decide
  refine ⟨"\x7b title: ".toList ++ '"' :: (title ++ '"' ::
    (middleText ++ '"' :: (composer ++ '"' :: backText))), ?_, ?_⟩
  · rw [namesLine, hfront, List.append_assoc, List.cons_append]
  · have hback : '\x7d' ∈ backText := by decide
    simp [hback]

theorem isDirective_namesLine (title composer : List Char) :
    isDirective (namesLine title composer) = true := by
  obtain ⟨r, hline, -⟩ := exists_namesLine title composer
  have hmeta : startsWithKeyword (namesLine title composer) "meta".toList = true := by
    rw [hline, startsWithKeyword, dropKeyword?_append]
    rfl
  have hany : directiveKeywords.any (startsWithKeyword (namesLine title composer)) = true :=
    List.any_eq_true.mpr ⟨_, List.mem_cons_self, hmeta⟩
  rw [isDirective, hany]
  rfl

/-- The block ends on its line. -/
theorem opens_namesLine (title composer : List Char) :
    MetaBlock.opens (namesLine title composer) = false := by
  obtain ⟨r, hline, hbrace⟩ := exists_namesLine title composer
  rw [hline, MetaBlock.opens, dropKeyword?_append]
  simp [hbrace]

theorem trim_namesLine (title composer : List Char) :
    trim (namesLine title composer) = namesLine title composer := by
  have hback : backText = [' '] ++ ['\x7d'] := by decide
  refine trim_eq_self (fun c hc ↦ ?_) fun c hc ↦ ?_
  · obtain ⟨r, hline, -⟩ := exists_namesLine title composer
    rw [hline] at hc
    cases hc
    decide
  · have hconcat : namesLine title composer = frontText ++ '"' :: (title ++ '"' ::
        (middleText ++ '"' :: (composer ++ ['"', ' ']))) ++ ['\x7d'] := by
      simp [namesLine, hback]
    rw [hconcat, List.getLast?_concat] at hc
    cases hc
    decide

namespace Segmenting

/-- What is known of the body behind the line. -/
def named (g : Segmenting) (title composer : List Char) : Segmenting :=
  { g with title? := some title, composer? := some (composerIn title composer) }

theorem yields_namesLine (ht : '"' ∉ title) (hc : '"' ∉ composer) {g : Segmenting}
    (hg : g.inMeta = false) (n : Nat) :
    (g.readLine (n, namesLine title composer)).Yields (g.named title composer).updateBlock := by
  have htempo := findTempo?_namesLine ht hc
  have htime := findTimeSignature?_namesLine ht hc
  have hread : (Clause.directive n (namesLine title composer)).isReadable = true := by
    rw [Clause.isReadable, htime]
    rfl
  -- the line is a directive and opens no meta block, so it is applied
  have hstep : g.readLine (n, namesLine title composer) =
      applyDirective n g (namesLine title composer) := by
    have hne : (namesLine title composer).isEmpty = false := by simp [namesLine]
    have hdir : g.readsDirective (namesLine title composer) = true := by
      rw [readsDirective, isDirective_namesLine, Bool.or_true]
    have hmeta : g.inMetaAfter (namesLine title composer) = g.inMeta := by
      rw [inMetaAfter, hg, opens_namesLine]
      rfl
    rw [readLine, trim_namesLine]
    dsimp only
    rw [if_neg (by simp [hne]), step, if_pos hdir, hmeta]
  constructor
  · rw [hstep, applyDirective_value, if_pos hread, Clause.tempo?, htempo, Clause.timeSignature?,
      htime, setNames, findTitle?_namesLine ht, findComposer?_namesLine ht hc]
    rfl
  · rw [hstep, applyDirective_reports n g _ hread, Clause.tempoProblems, htempo,
      Clause.timeSignatureProblems, htime]
    rfl

/-- The current block has the tempo and the time signature that hold already. -/
theorem Mirrors.updateBlock {d : Defaults} {past : List Clause} {g : Segmenting}
    (h : Mirrors d past g) : g.updateBlock = g := by
  have hcurrent : (g.current?.map fun b ↦
      { b with tempo := g.tempo, timeSignature := g.timeSignature }) = g.current? := by
    cases hg : g.current? with
    | none => rfl
    | some b =>
      obtain ⟨htempo, htime⟩ := h.block b hg
      rw [Option.map_some, ← htempo, ← htime]
  rw [Segmenting.updateBlock, hcurrent]

/-- **A line with a title and a composer sets nothing else**, whatever words and numbers stand in
the quotes.  Wherever the lines before lead, outside of meta blocks, the title is the first quoted
text and nothing is reported.  The composer is the second quoted text, unless the first one ends in
the key of the composer: then it is what stands between them.  Behind lines that were read from the
start the current block is as it was. -/
theorem names_readLine (ht : '"' ∉ title) (hc : '"' ∉ composer) {g : Segmenting}
    (hg : g.inMeta = false) (n : Nat) :
    (g.readLine (n, namesLine title composer)).Yields (g.named title composer).updateBlock ∧
      ∀ (d : Defaults) (cs : List Clause),
        g = cs.foldl after { tempo := d.tempo, timeSignature := d.timeSignature } →
          (g.readLine (n, namesLine title composer)).Yields (g.named title composer) := by
  have hyields := yields_namesLine ht hc hg n
  refine ⟨hyields, ?_⟩
  rintro d cs rfl
  have hmirrors := ((mirrors_start d).foldl_after cs).updateBlock
  generalize cs.foldl after _ = g at hmirrors hyields ⊢
  have hnamed : (g.named title composer).updateBlock = g.updateBlock.named title composer := rfl
  rwa [hnamed, hmirrors] at hyields

/-- What is known before all lines, with the usual defaults. -/
def atStart : Segmenting :=
  { tempo := Defaults.tempo {}, timeSignature := Defaults.timeSignature {} }

/-- The quoted texts look like a tempo, a time signature and keys. -/
theorem names_readLine_etude :
    '"' ∉ "tempo: 90 composer 3/4".toList ∧ '"' ∉ "title: X".toList ∧ atStart.inMeta = false ∧
      (atStart.readLine (1, namesLine "tempo: 90 composer 3/4".toList "title: X".toList)).Yields
        { atStart with
          title? := some "tempo: 90 composer 3/4".toList
          composer? := some "title: X".toList } := by
  have ht : '"' ∉ "tempo: 90 composer 3/4".toList := by decide
  have hc : '"' ∉ "title: X".toList := by decide
  have hkey : composerIn "tempo: 90 composer 3/4".toList "title: X".toList =
      "title: X".toList := rfl
  have hyields := (names_readLine ht hc (g := atStart) rfl 1).2 {} [] rfl
  rw [named, hkey] at hyields
  exact ⟨ht, hc, rfl, hyields⟩

/-- A title that ends in the key of the composer: the composer is lost. -/
theorem misread_anon :
    (∀ c ∈ ['"', '\x7b', '\x7d', '\n'], c ∉ "The composer:".toList ∧ c ∉ "Anon".toList) ∧
      atStart.inMeta = false ∧
      ∃ g, (atStart.readLine (1, namesLine "The composer:".toList "Anon".toList)).Yields g ∧
        g.title? = some "The composer:".toList ∧ g.composer? = some " composer: ".toList ∧
        g.composer? ≠ some "Anon".toList := by
  have ht : '"' ∉ "The composer:".toList := by decide
  have hc : '"' ∉ "Anon".toList := by decide
  have hyields := yields_namesLine ht hc (g := atStart) rfl 1
  have hkey : composerIn "The composer:".toList "Anon".toList = " composer: ".toList := rfl
  have hfree : ∀ c ∈ ['"', '\x7b', '\x7d', '\n'],
      c ∉ "The composer:".toList ∧ c ∉ "Anon".toList := by
    simp only [List.forall_mem_cons, List.not_mem_nil, false_implies, implies_true, and_true]
    decide
  refine ⟨hfree, rfl, _, hyields, rfl, ?_, ?_⟩
  · show some (composerIn "The composer:".toList "Anon".toList) = _
    rw [hkey]
  · show some (composerIn "The composer:".toList "Anon".toList) ≠ _
    rw [hkey]
    decide

end Segmenting

end TextScore
