import TextScore.Proofs.Number.Numeral
import TextScore.Proofs.Repeat.Pass

/-!
# Repeated phrases

A phrase is made of words and of repeated phrases.  When it is written out and its repeat groups are
expanded, what is left are its words, each group as often as its count says.

The passes work on text, the phrase is a tree.  They meet in `Phrase.reduce`: a pass over a written
phrase writes the phrase in which every group without groups inside has become a word.  So the
expansion of the text is followed on the side of trees, where a pass is a recursion and not a
search, and the tree gets smaller until it is flat.

A word of a reduced phrase is a whole run of copies, with spaces in it.  That is why the conditions
on words come in two strengths: for the passes it is enough that there are no braces in them, and
only at the very end, when the words of the text are counted, must they be words.

## What is here

* `Phrase`, `Phrase.written`, `Phrase.reading` — a phrase, its text, and the words it stands for.
* `Passes` — what a pass makes of a text, whatever follows.
* `Phrase.expanded` — the text that is left; reducing a phrase does not change it.
* `Phrase.expand_written` — expanding a written phrase leaves that text.
* `Phrase.words_expand` — unless a count is cut down, the words of it are those of the phrase.

Counts of zero and groups without words are allowed, and they are the reason for speaking of words
at all: their copies leave spaces behind, so the text of the expansion is not the text of the
reading, but its words are.
-/

set_option autoImplicit false

namespace TextScore.Repeat

open Text Number

/-- How a repeat group says that it is one. -/
inductive Times
  /-- With an `x`. -/
  | cross
  /-- With an asterisk. -/
  | star
  deriving DecidableEq

/-- The times mark. -/
def Times.mark : Times → Char
  | cross => 'x'
  | star => '*'

/-- Words and repeated phrases, one after the other. -/
inductive Phrase
  /-- Nothing. -/
  | nil
  /-- A word and what follows it. -/
  | word (w : List Char) (rest : Phrase)
  /-- A repeated phrase and what follows it. -/
  | group (body : Phrase) (times : Times) (count : Nat) (rest : Phrase)

/-- What stands between braces that are set off by spaces. -/
def inside (s : List Char) : List Char := ' ' :: (s ++ [' '])

/-- A written repeat group. -/
def groupText (body : List Char) (times : Times) (count : Nat) : List Char :=
  '{' :: (inside body ++ '}' :: ' ' :: times.mark :: ' ' :: digits count)

/-- As many copies of a body as are written out, with single spaces between them. -/
def copies (body : List Char) (count : Nat) : List Char :=
  joinWith [' '] (List.replicate (min count (maxLength / ((trim body).length + 1))) (trim body))

theorem Group.expansion_eq (g : Group) : g.expansion = copies g.body g.times := rfl

/-! ## What a pass makes of a text

`Passes s t gs` is closed under putting texts together, as long as what follows a count does not go
on with it.  A brace behind which another one opens starts no group in this pass, and is left. -/

/-- No digit stands at the front, so that a count before the text ends there. -/
def EndsCount (s : List Char) : Prop := ∀ c ∈ s.head?, isDigit c = false

/-- There is no brace in the text. -/
def Braceless (s : List Char) : Prop := ∀ c ∈ s, isBrace c = false

/-- The spaces at both ends are no braces. -/
theorem Braceless.inside {s : List Char} (h : Braceless s) : Braceless (inside s) := by
  have hspace : isBrace ' ' = false := by decide
  simpa [Braceless, Repeat.inside, hspace, or_imp, forall_and] using h

/-- A pass turns `s` into `t`, whatever follows, and finds groups with the given bodies and
counts in it. -/
structure Passes (s t : List Char) (gs : List (List Char × List Char)) : Prop where
  /-- The text behind the pass. -/
  pass : ∀ r, EndsCount r → pass (s ++ r) = t ++ pass r
  /-- The groups that it finds. -/
  found : ∀ r, EndsCount r → (innermost (s ++ r)).map (fun g ↦ (g.body, g.count)) =
    gs ++ (innermost r).map fun g ↦ (g.body, g.count)

namespace Passes

variable {s s' t t' : List Char} {gs gs' : List (List Char × List Char)}

/-- Without an opening brace nothing happens. -/
theorem plain (h : ∀ c ∈ s, c ≠ '{') : Passes s s [] where
  pass r _ := (pass_append h r).1
  found r _ := by rw [(pass_append h r).2, List.nil_append]

/-- A brace behind which another one opens starts no group. -/
theorem opening (h : Passes s t gs) (hs : ∃ u v, s = u ++ '{' :: v ∧ Braceless u) :
    Passes ('{' :: s) ('{' :: t) gs := by
  obtain ⟨u, v, rfl, hu⟩ := hs
  -- reading a group stops at the next brace, which is not a closing one
  have hread (r : List Char) : Group.read? ('{' :: (u ++ '{' :: v ++ r)) = none := by
    have hdrop : (u ++ '{' :: v ++ r).dropWhile (fun c ↦ !isBrace c) = '{' :: (v ++ r) := by
      rw [List.append_assoc, List.cons_append]
      exact (span_append (fun c hc ↦ by simp [hu c hc]) fun c hc ↦ by cases hc; rfl).2
    rw [Group.read?]
    split
    case h_1 t ht => cases hdrop.symm.trans ht
    case h_2 => rfl
  constructor
  · intro r hr
    rw [List.cons_append, pass_of_none (hread r), h.pass r hr, List.cons_append]
  · intro r hr
    rw [List.cons_append, innermost_of_none (hread r), h.found r hr]

/-- A group without braces inside is written out. -/
theorem group {body : List Char} (hbody : Braceless body) (times : Times)
    (n : Nat) : Passes ('{' :: (body ++ '}' :: ' ' :: times.mark :: ' ' :: digits n))
      (copies body n) [(body, digits n)] := by
  have hread (r : List Char) (hr : EndsCount r) : Group.read?
      ('{' :: (body ++ '}' :: ' ' :: times.mark :: ' ' :: digits n) ++ r) =
        some (⟨body, digits n, hbody⟩, r) := by
    have hspace : ∀ c ∈ [' '], isBlank c = true := List.forall_mem_singleton.mpr (by decide)
    have hmark : Group.isTimes times.mark = true := by cases times <;> decide
    have hcount : Group.readCount? (' ' :: times.mark :: ' ' :: (digits n ++ r)) =
        some (digits n, r) :=
      Group.readCount?_written hspace hmark hspace
        ⟨digits_ne_nil n, fun _ ↦ isDigit_of_mem_digits⟩ hr
    rw [List.cons_append, List.append_assoc, List.cons_append, List.cons_append, List.cons_append,
      List.cons_append, Group.read?_body hbody, hcount]
    rfl
  constructor
  · intro r hr
    rw [pass_of_some (hread r hr), Group.expansion_eq, Group.times, digitsValue_digits]
  · intro r hr
    rw [innermost_of_some (hread r hr), List.map_cons, List.singleton_append]

theorem append (h : Passes s t gs) (h' : Passes s' t' gs') (hs' : EndsCount s') :
    Passes (s ++ s') (t ++ t') (gs ++ gs') := by
  have hends (r : List Char) (hr : EndsCount r) : EndsCount (s' ++ r) := by
    cases s' with
    | nil => exact hr
    | cons c s' => exact hs'
  constructor
  · intro r hr
    rw [List.append_assoc, h.pass _ (hends r hr), h'.pass r hr, List.append_assoc]
  · intro r hr
    rw [List.append_assoc, h.found _ (hends r hr), h'.found r hr, List.append_assoc]

theorem of_space (h : Passes (' ' :: s) (' ' :: t) gs) : Passes s t gs := by
  have hspace (r : List Char) : Repeat.pass (' ' :: r) = ' ' :: Repeat.pass r ∧
      innermost (' ' :: r) = innermost r :=
    pass_append (List.forall_mem_singleton.mpr (by decide)) r
  constructor
  · intro r hr
    have hpass := h.pass r hr
    rw [List.cons_append, (hspace _).1] at hpass
    exact (List.cons.inj hpass).2
  · intro r hr
    rw [← h.found r hr, List.cons_append, (hspace _).2]

end Passes

/-! ## Phrases and their texts

There are three readings of a phrase, as lists: its items as they are written, what they are
expanded to, and the words it stands for. -/

namespace Phrase

/-- The items of a phrase as they are written. -/
def items : Phrase → List (List Char)
  | nil => []
  | word w rest => w :: rest.items
  | group body times count rest =>
    groupText (joinWith [' '] body.items) times count :: rest.items

/-- The text of a phrase: its items with one space between neighbours. -/
def written (p : Phrase) : List Char := joinWith [' '] p.items

/-- The words that a phrase stands for, each group as often as its count says. -/
def reading : Phrase → List (List Char)
  | nil => []
  | word w rest => w :: rest.reading
  | group body _ count rest => (List.replicate count body.reading).flatten ++ rest.reading

/-- What the items of a phrase are expanded to. -/
def parts : Phrase → List (List Char)
  | nil => []
  | word w rest => w :: rest.parts
  | group body _ count rest => copies (inside (joinWith [' '] body.parts)) count :: rest.parts

/-- What a phrase is expanded to. -/
def expanded (p : Phrase) : List Char := joinWith [' '] p.parts

/-- All words and all counts of a phrase satisfy a condition. -/
def Forall (P : List Char → Prop) (Q : Nat → Prop) : Phrase → Prop
  | nil => True
  | word w rest => P w ∧ rest.Forall P Q
  | group body _ count rest => body.Forall P Q ∧ Q count ∧ rest.Forall P Q

/-- A word: not empty, without blanks and without braces. -/
structure IsWord (w : List Char) : Prop where
  /-- It is not empty. -/
  ne_nil : w ≠ []
  /-- There is no blank in it. -/
  blank : ∀ c ∈ w, isBlank c = false
  /-- There is no brace in it. -/
  braceless : Braceless w

/-- No count is so large that it is cut down. -/
def Uncut : Phrase → Prop
  | nil => True
  | word _ rest => rest.Uncut
  | group body _ count rest =>
    body.Uncut ∧ count ≤ maxLength / ((trim (inside body.expanded)).length + 1) ∧ rest.Uncut

/-! ## Reducing phrases

Where there are groups there is one without groups inside, so reducing makes a phrase smaller; and
it does not change what the phrase is expanded to. -/

/-- There are no groups in the phrase. -/
def isFlat : Phrase → Bool
  | nil => true
  | word _ rest => rest.isFlat
  | group .. => false

/-- How many groups there are. -/
def size : Phrase → Nat
  | nil => 0
  | word _ rest => rest.size
  | group body _ _ rest => body.size + 1 + rest.size

/-- The phrase in which each group without groups inside has become a word. -/
def reduce : Phrase → Phrase
  | nil => nil
  | word w rest => word w rest.reduce
  | group body times count rest =>
    if body.isFlat then word (copies (inside body.written) count) rest.reduce
    else group body.reduce times count rest.reduce

/-- The bodies and the counts of the groups without groups inside, as they are written. -/
def innermost : Phrase → List (List Char × List Char)
  | nil => []
  | word _ rest => rest.innermost
  | group body _ count rest =>
    (if body.isFlat then [(inside body.written, digits count)] else body.innermost) ++
      rest.innermost

variable {p : Phrase} {P : List Char → Prop} {Q : Nat → Prop}

theorem parts_of_isFlat (h : p.isFlat = true) : p.parts = p.items := by
  induction p with
  | nil => rfl
  | word w rest ih => rw [parts, items, ih h]
  | group => cases h

theorem expanded_of_isFlat (h : p.isFlat = true) : p.expanded = p.written := by
  rw [expanded, written, parts_of_isFlat h]

theorem uncut_of_isFlat (h : p.isFlat = true) : p.Uncut := by
  induction p with
  | nil => trivial
  | word w rest ih => exact ih h
  | group => cases h

theorem innermost_of_isFlat (h : p.isFlat = true) : p.innermost = [] := by
  induction p with
  | nil => rfl
  | word w rest ih => exact ih h
  | group => cases h

/-- Where there are groups, there is one without groups inside. -/
theorem innermost_ne_nil (h : p.isFlat = false) : p.innermost ≠ [] := by
  induction p with
  | nil => cases h
  | word w rest ih => exact ih h
  | group body times count rest ihb ih =>
    rw [innermost]
    split
    case isTrue => exact List.cons_ne_nil _ _
    case isFalse hb =>
      exact List.append_ne_nil_of_left_ne_nil (ihb (Bool.eq_false_iff.mpr hb)) _

/-- Reducing a phrase takes groups away. -/
theorem size_reduce_le (p : Phrase) : p.reduce.size ≤ p.size := by
  induction p with
  | nil => exact Nat.le_refl _
  | word w rest ih => exact ih
  | group body times count rest ihb ih =>
    rw [reduce]
    split
    · rw [size, size]
      omega
    · rw [size, size]
      omega

theorem size_reduce_lt (h : p.isFlat = false) : p.reduce.size < p.size := by
  induction p with
  | nil => cases h
  | word w rest ih => exact ih h
  | group body times count rest ihb ih =>
    have hrest := size_reduce_le rest
    rw [reduce]
    split
    case isTrue =>
      rw [size, size]
      omega
    case isFalse hb =>
      have hbody := ihb (Bool.eq_false_iff.mpr hb)
      rw [size, size]
      omega

/-- Reducing a phrase does not change what it is expanded to. -/
theorem parts_reduce (p : Phrase) : p.reduce.parts = p.parts := by
  induction p with
  | nil => rfl
  | word w rest ih => rw [reduce, parts, parts, ih]
  | group body times count rest ihb ih =>
    rw [reduce]
    split
    case isTrue hb => rw [parts, parts, ih, written, parts_of_isFlat hb]
    case isFalse => rw [parts, parts, ihb, ih]

theorem expanded_reduce (p : Phrase) : p.reduce.expanded = p.expanded := by
  rw [expanded, expanded, parts_reduce]

/-- If no innermost group is cut down, and none after they are expanded, then none at all. -/
theorem uncut_of_reduce (h : p.reduce.Uncut)
    (hgs : ∀ g ∈ p.innermost, digitsValue g.2 ≤ maxLength / ((trim g.1).length + 1)) : p.Uncut := by
  induction p with
  | nil => trivial
  | word w rest ih => exact ih h hgs
  | group body times count rest ihb ih =>
    rw [innermost, List.forall_mem_append] at hgs
    rw [reduce] at h
    by_cases hb : body.isFlat = true
    · rw [if_pos hb] at h hgs
      rw [List.forall_mem_singleton, digitsValue_digits, ← expanded_of_isFlat hb] at hgs
      exact ⟨uncut_of_isFlat hb, hgs.1, ih h hgs.2⟩
    · rw [if_neg hb] at h hgs
      obtain ⟨hbody, hcount, hrest⟩ := h
      rw [expanded_reduce] at hcount
      exact ⟨ihb hbody hgs.1, hcount, ih hrest hgs.2⟩

/-! ## Passes over written phrases

The induction is on the phrase.  The items are taken with a space before each, so that an item more
is a text more. -/

theorem space_joinWith {ps : List (List Char)} (h : ps ≠ []) :
    ' ' :: joinWith [' '] ps = ps.flatMap ([' '] ++ ·) := by
  cases ps with
  | nil => exact absurd rfl h
  | cons s ps => rw [joinWith_cons, List.flatMap_cons, List.append_assoc, List.singleton_append]

/-- What stands behind the body of a group. -/
def closing (times : Times) (count : Nat) : List Char :=
  ' ' :: '}' :: ' ' :: times.mark :: ' ' :: digits count

theorem groupText_joinWith {ps : List (List Char)} (h : ps ≠ []) (times : Times) (count : Nat) :
    groupText (joinWith [' '] ps) times count =
      '{' :: (ps.flatMap ([' '] ++ ·) ++ closing times count) := by
  rw [groupText, inside, ← space_joinWith h, closing]
  simp

theorem endsCount_flatMap (ps : List (List Char)) : EndsCount (ps.flatMap ([' '] ++ ·)) := by
  cases ps with
  | nil => exact fun c hc ↦ nomatch hc
  | cons s ps =>
    intro c hc
    cases hc
    decide

theorem ne_nil_of_isFlat (h : p.isFlat = false) : p ≠ nil := by
  rintro rfl
  cases h

theorem items_ne_nil (h : p ≠ nil) : p.items ≠ [] := by
  cases p with
  | nil => exact absurd rfl h
  | word w rest => exact List.cons_ne_nil _ _
  | group body times count rest => exact List.cons_ne_nil _ _

theorem reduce_ne_nil (h : p ≠ nil) : p.reduce ≠ nil := by
  cases p with
  | nil => exact absurd rfl h
  | word w rest => exact Phrase.noConfusion
  | group body times count rest =>
    rw [reduce]
    split
    · exact Phrase.noConfusion
    · exact Phrase.noConfusion

/-- A phrase without groups is written without braces. -/
theorem braceless_inside (h : p.isFlat = true) (hp : p.Forall Braceless Q) :
    Braceless (inside p.written) := by
  have hitems : ∀ w ∈ p.items, Braceless w := by
    induction p with
    | nil => exact fun w hw ↦ absurd hw List.not_mem_nil
    | word w rest ih =>
      rw [items, List.forall_mem_cons]
      exact ⟨hp.1, ih h hp.2⟩
    | group => cases h
  refine Braceless.inside fun c hc ↦ ?_
  rcases mem_of_mem_joinWith hc with hc | ⟨w, hw, hc⟩
  · rw [List.mem_singleton.mp hc]
    decide
  · exact hitems w hw c hc

/-- The first brace of a phrase with groups opens one of them. -/
theorem exists_brace (h : p.isFlat = false) (hp : p.Forall Braceless Q) :
    ∃ u v, p.items.flatMap ([' '] ++ ·) = u ++ '{' :: v ∧ Braceless u := by
  induction p with
  | nil => cases h
  | word w rest ih =>
    obtain ⟨u, v, huv, hu⟩ := ih h hp.2
    refine ⟨[' '] ++ w ++ u, v, ?_, ?_⟩
    · rw [items, List.flatMap_cons, huv, List.append_assoc _ u]
    · rw [Braceless, List.forall_mem_append, List.forall_mem_append]
      exact ⟨⟨List.forall_mem_singleton.mpr (by decide), hp.1⟩, hu⟩
  | group body times count rest _ _ =>
    refine ⟨[' '], _, by rw [items, List.flatMap_cons, groupText]; rfl, ?_⟩
    rw [Braceless, List.forall_mem_singleton]
    decide

theorem closing_plain (times : Times) (count : Nat) : ∀ c ∈ closing times count, c ≠ '{' := by
  simp only [closing, List.forall_mem_cons]
  refine ⟨by decide, by decide, by decide, by cases times <;> decide, by decide, fun c hc ↦ ?_⟩
  rintro rfl
  exact absurd (isDigit_of_mem_digits hc) (by decide)

theorem endsCount_groupText (body : List Char) (times : Times) (count : Nat) :
    EndsCount (groupText body times count) := by
  intro c hc
  cases hc
  decide

/-- A pass over a written phrase writes the reduced phrase. -/
theorem passes_items (hp : p.Forall Braceless Q) :
    Passes (p.items.flatMap ([' '] ++ ·)) (p.reduce.items.flatMap ([' '] ++ ·)) p.innermost := by
  have hspace : Passes [' '] [' '] [] := .plain (List.forall_mem_singleton.mpr (by decide))
  induction p with
  | nil => exact .plain fun c hc ↦ absurd hc List.not_mem_nil
  | word w rest ih =>
    have hw : Passes ([' '] ++ w) ([' '] ++ w) [] := .plain fun c hc ↦ by
      rintro rfl
      rcases List.mem_append.mp hc with hc | hc
      · exact absurd hc (by decide)
      · exact absurd (hp.1 _ hc) (by decide)
    exact hw.append (ih hp.2) (endsCount_flatMap _)
  | group body times count rest ihb ih =>
    obtain ⟨hbody, -, hrest⟩ := hp
    rw [items, reduce, innermost, List.flatMap_cons]
    by_cases hb : body.isFlat = true
    · have hgroup : Passes (groupText body.written times count)
          (copies (inside body.written) count) [(inside body.written, digits count)] :=
        .group (braceless_inside hb hbody) times count
      rw [if_pos hb, if_pos hb]
      exact (hspace.append hgroup (endsCount_groupText _ _ _)).append (ih hrest)
        (endsCount_flatMap _)
    · rw [if_neg hb, if_neg hb]
      rw [Bool.not_eq_true] at hb
      -- the group keeps its braces: the first one inside opens another group
      have hgroup : Passes (groupText body.written times count)
          (groupText body.reduce.written times count) body.innermost := by
        have hne := ne_nil_of_isFlat hb
        rw [written, written, groupText_joinWith (items_ne_nil hne),
          groupText_joinWith (items_ne_nil (reduce_ne_nil hne)), ← List.append_nil body.innermost]
        refine ((ihb hbody).append (.plain (closing_plain times count)) ?_).opening ?_
        · exact fun c hc ↦ by cases hc; decide
        · obtain ⟨u, v, huv, hu⟩ := exists_brace hb hbody
          exact ⟨u, v ++ closing times count, by rw [huv, List.append_assoc, List.cons_append], hu⟩
      exact (hspace.append hgroup (endsCount_groupText _ _ _)).append (ih hrest)
        (endsCount_flatMap _)

theorem passes_written (hp : p.Forall Braceless Q) :
    Passes p.written p.reduce.written p.innermost := by
  by_cases hne : p = nil
  · subst hne
    exact passes_items hp
  · have h := passes_items hp
    rw [← space_joinWith (items_ne_nil hne),
      ← space_joinWith (items_ne_nil (reduce_ne_nil hne))] at h
    exact h.of_space

theorem braceless_copies {body : List Char} (h : Braceless body) (count : Nat) :
    Braceless (copies body count) := by
  intro c hc
  rcases mem_of_mem_joinWith hc with hc | ⟨s, hs, hc⟩
  · rw [List.mem_singleton.mp hc]
    decide
  · rw [(List.mem_replicate.mp hs).2] at hc
    exact h c (mem_of_mem_trim hc)

theorem forall_reduce (hp : p.Forall Braceless Q) : p.reduce.Forall Braceless Q := by
  induction p with
  | nil => trivial
  | word w rest ih => exact ⟨hp.1, ih hp.2⟩
  | group body times count rest ihb ih =>
    obtain ⟨hbody, hcount, hrest⟩ := hp
    rw [reduce]
    split
    case isTrue hb => exact ⟨braceless_copies (braceless_inside hb hbody) count, ih hrest⟩
    case isFalse => exact ⟨ihb hbody, hcount, ih hrest⟩

theorem count_innermost (hp : p.Forall P Q) : ∀ g ∈ p.innermost, ∃ n, g.2 = digits n ∧ Q n := by
  induction p with
  | nil => exact fun g hg ↦ absurd hg List.not_mem_nil
  | word w rest ih => exact ih hp.2
  | group body times count rest ihb ih =>
    obtain ⟨hbody, hcount, hrest⟩ := hp
    rw [innermost, List.forall_mem_append]
    refine ⟨?_, ih hrest⟩
    split
    · rw [List.forall_mem_singleton]
      exact ⟨count, rfl, hcount⟩
    · exact ihb hbody

/-! ## Expanding written phrases -/

/-- The numeral of a number is short enough to be read. -/
def IsReadable (n : Nat) : Prop := (digits n).length ≤ maxDigits

instance (n : Nat) : Decidable (IsReadable n) := inferInstanceAs (Decidable (_ ≤ _))

/-- Expanding a written phrase leaves what the phrase is expanded to; if nothing is reported, no
count was cut down. -/
theorem expand_written (hp : p.Forall Braceless IsReadable) :
    (expand p.written).value = .ok p.expanded ∧
      ((∀ n l, .repeatTooLarge n l ∉ (expand p.written).notes) → p.Uncut) := by
  -- each pass is a reduction, and there are fewer groups behind it
  induction hn : p.size using Nat.strongRecOn generalizing p with
  | ind n ih =>
    have hpasses := passes_written hp
    have hnil : Repeat.innermost [] = [] := by decide +kernel
    have hfound := hpasses.found [] fun c hc ↦ nomatch hc
    have hpass := hpasses.pass [] fun c hc ↦ nomatch hc
    rw [List.append_nil, hnil, List.map_nil, List.append_nil] at hfound
    rw [List.append_nil, pass_eq_self_iff.mpr hnil, List.append_nil] at hpass
    by_cases hflat : p.isFlat = true
    · rw [innermost_of_isFlat hflat, List.map_eq_nil_iff] at hfound
      rw [expand_of_innermost_eq_nil hfound, expanded_of_isFlat hflat]
      exact ⟨rfl, fun _ ↦ uncut_of_isFlat hflat⟩
    · rw [Bool.not_eq_true] at hflat
      have hne : Repeat.innermost p.written ≠ [] := by
        intro hempty
        rw [hempty] at hfound
        exact innermost_ne_nil hflat hfound.symm
      have hmem (g : Group) (hg : g ∈ Repeat.innermost p.written) :
          (g.body, g.count) ∈ p.innermost := by
        rw [← hfound]
        exact List.mem_map_of_mem hg
      have hcounts : ∀ g ∈ Repeat.innermost p.written, g.count.length ≤ maxDigits := by
        intro g hg
        obtain ⟨k, hk, hread⟩ := count_innermost hp _ (hmem g hg)
        rw [show g.count = digits k from hk]
        exact hread
      obtain ⟨hvalue, huncut⟩ := ih p.reduce.size (hn ▸ size_reduce_lt hflat)
        (forall_reduce hp) rfl
      rw [expand_of_innermost_ne_nil hne, hpass]
      constructor
      · rw [Noted.value_bind fun _ ↦ appends_expand _, forM_check_value hcounts, ok_bind, hvalue,
          expanded_reduce]
      · intro hquiet
        rw [Noted.notes_bind (fun _ ↦ appends_expand _) (forM_check_value hcounts)] at hquiet
        refine uncut_of_reduce (huncut fun k l hk ↦ hquiet k l (Array.mem_append_right _ hk)) ?_
        intro x hx
        rw [← hfound] at hx
        obtain ⟨g, hg, rfl⟩ := List.mem_map.mp hx
        by_contra hlarge
        refine hquiet g.times g.limit (Array.mem_append_left _ ?_)
        exact mem_notes_forM_check hcounts hg
          (Group.mem_notes_check (hcounts g hg) (Nat.lt_of_not_le hlarge))

/-! ## Words of expanded phrases

A group that was not cut down has the words of its body as often as its count says; what was cut
down is reported, so without a report nothing was. -/

theorem words_inside (s : List Char) : words (inside s) = words s := by
  have hspace : ∀ c ∈ [' '], isBlank c = true := List.forall_mem_singleton.mpr (by decide)
  rw [inside, words_cons_blank (by decide), words_append_of_blank hspace]

/-- If it is not cut down, a group has the words of its body as often as its count says. -/
theorem words_copies {body : List Char} {count : Nat}
    (h : count ≤ maxLength / ((trim body).length + 1)) :
    words (copies body count) = (List.replicate count (words body)).flatten := by
  rw [copies, Nat.min_eq_left h, words_joinWith, List.flatMap_def, List.map_replicate, words_trim]

theorem forall_imp {P' : List Char → Prop} {Q' : Nat → Prop} (hP : ∀ w, P w → P' w)
    (hQ : ∀ n, Q n → Q' n) (hp : p.Forall P Q) : p.Forall P' Q' := by
  induction p with
  | nil => trivial
  | word w rest ih => exact ⟨hP w hp.1, ih hp.2⟩
  | group body times count rest ihb ih => exact ⟨ihb hp.1, hQ count hp.2.1, ih hp.2.2⟩

theorem words_expanded (hp : p.Forall IsWord Q) (hu : p.Uncut) : words p.expanded = p.reading := by
  rw [expanded, words_joinWith]
  induction p with
  | nil => rfl
  | word w rest ih =>
    rw [parts, reading, List.flatMap_cons, words_of_not_blank hp.1.ne_nil hp.1.blank, ih hp.2 hu]
    rfl
  | group body times count rest ihb ih =>
    obtain ⟨hbody, -, hrest⟩ := hp
    obtain ⟨hubody, hcount, hurest⟩ := hu
    have hinside : words (inside (joinWith [' '] body.parts)) = body.reading := by
      rw [words_inside, words_joinWith, ihb hbody hubody]
    rw [parts, reading, List.flatMap_cons, ih hrest hurest, ← expanded, words_copies hcount,
      expanded, hinside]

/-- **Repeats are read as they nest.**  A phrase that is written out and expanded has the words that
it stands for, unless it is reported that a count was cut down.  The groups may be nested to any
depth, their counts may be zero, and there may be nothing in them. -/
theorem words_expand (hp : p.Forall IsWord IsReadable)
    (hquiet : ∀ n l, .repeatTooLarge n l ∉ (expand p.written).notes) :
    ∃ s, (expand p.written).value = .ok s ∧ words s = p.reading := by
  obtain ⟨hvalue, huncut⟩ :=
    expand_written (forall_imp (fun _ h ↦ h.braceless) (fun _ h ↦ h) hp)
  exact ⟨p.expanded, hvalue, words_expanded hp (huncut hquiet)⟩

/-- A phrase with an empty group and a count of zero inside:
`{ a { b } x 0 {  } * 2 } x 2 x 3`. -/
def nested : Phrase :=
  .group (.word ['a'] (.group (.word ['b'] .nil) .cross 0 (.group .nil .star 2 .nil))) .cross 2
    (.word ['x'] (.word ['3'] .nil))

theorem words_expand_nested :
    nested.written = "{ a { b } x 0 {  } * 2 } x 2 x 3".toList ∧
      nested.Forall IsWord IsReadable ∧
      (∀ n l, .repeatTooLarge n l ∉ (expand nested.written).notes) ∧
      nested.reading = [['a'], ['a'], ['x'], ['3']] ∧
      ∃ s, (expand nested.written).value = .ok s ∧ words s = nested.reading := by
  have hword (c : Char) (hblank : isBlank c = false) (hbrace : isBrace c = false) : IsWord [c] :=
    ⟨List.cons_ne_nil _ _, by simpa using hblank, by simpa [Braceless] using hbrace⟩
  have hp : nested.Forall IsWord IsReadable :=
    ⟨⟨hword 'a' (by decide) (by decide),
        ⟨hword 'b' (by decide) (by decide), trivial⟩, by decide, ⟨trivial, by decide, trivial⟩⟩,
      by decide, hword 'x' (by decide) (by decide), hword '3' (by decide) (by decide), trivial⟩
  have hnotes : (expand nested.written).notes = #[] := by decide +kernel
  have hquiet (n l : Nat) : .repeatTooLarge n l ∉ (expand nested.written).notes := by
    rw [hnotes]
    exact Array.not_mem_empty _
  exact ⟨by decide +kernel, hp, hquiet, by decide, words_expand hp hquiet⟩

end Phrase

end TextScore.Repeat
