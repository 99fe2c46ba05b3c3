import TextScore.Measure.Segment
import TextScore.Proofs.Ensemble.Drawn
import TextScore.Proofs.Score.Stages

/-!
# Where the texts of a body come from

The title, the composer and the staff lines of a body are cut out of its lines, and so are the texts
in what is reported of them.

* `findBehind?_subset`, `TempoNumeral.drawnFrom_text` — what directives set.
* `Segmenting.Drawn` — all that is known of a body is drawn from a source.
* `Body.draws_segment` — a body is drawn from where its lines are.

A directive is searched with its quoted texts emptied, and the quotation marks that are put in for
them may be none of the line; they are common characters, which is all that is needed.
-/

set_option autoImplicit false

namespace TextScore

open Text Number

variable {src s : List Char}

/-! ## Directives -/

theorem quotedTexts_subset {b : Bool} {q r : List Char} (h : quotedTexts.read? b s = some (q, r)) :
    r ⊆ s :=
  (dropQuoted?_subset h).2

/-- Quotes are common characters. -/
theorem drawnFrom_unquote (h : DrawnFrom src s) : DrawnFrom src (unquote s) :=
  Recogniser.drawnFrom_fill quotedTexts_subset h fun _ _ ↦ .of_common (by decide)

/-- What is found behind a keyword is read off a part of the line. -/
theorem findBehind?_subset {α : Type} {keyword : List Char} {f : List Char → Option α}
    {before : Bool} {a : α} (h : findBehind? keyword f before s = some a) :
    ∃ t, t ⊆ s ∧ f t = some a := by
  induction s generalizing before with
  | nil => cases h
  | cons c s ih =>
    rw [findBehind?] at h
    split at h
    case h_1 a' hfound =>
      cases h
      obtain ⟨t, ht, hf⟩ := Option.bind_eq_some_iff.mp hfound
      split at ht
      · cases ht
      · exact ⟨t, dropKeyword?_subset ht, hf⟩
    case h_2 =>
      obtain ⟨t, ht, hf⟩ := ih h
      exact ⟨t, List.subset_cons_of_subset c ht, hf⟩

theorem readQuotedValue?_subset {v : List Char} (h : readQuotedValue? s = some v) : v ⊆ s := by
  rw [readQuotedValue?] at h
  split at h
  case h_1 r hr =>
    obtain ⟨⟨q, t⟩, hq, rfl⟩ := Option.map_eq_some_iff.mp h
    refine List.Subset.trans (dropQuoted?_subset hq).1 ?_
    refine List.Subset.trans (dropWhile_subset _ r) fun c hc ↦ dropWhile_subset isBlank s ?_
    rw [hr]
    exact List.mem_cons_of_mem _ hc
  case h_2 => cases h

theorem findTitle?_subset {v : List Char} (h : findTitle? s = some v) : v ⊆ s := by
  obtain ⟨t, ht, hv⟩ := findBehind?_subset h
  exact List.Subset.trans (readQuotedValue?_subset hv) ht

theorem findComposer?_subset {v : List Char} (h : findComposer? s = some v) : v ⊆ s := by
  obtain ⟨t, ht, hv⟩ := findBehind?_subset h
  exact List.Subset.trans (readQuotedValue?_subset hv) ht

theorem dropSetter_subset (s : List Char) : dropSetter s ⊆ s := by
  unfold dropSetter
  split
  · exact List.subset_cons_self _ _
  · exact List.subset_cons_self _ _
  · exact List.Subset.refl _

namespace TempoNumeral

/-- The digits of a numeral are read off the line. -/
theorem parts_subset {t : TempoNumeral} (h : read? s = some t) :
    t.whole ⊆ s ∧ t.fraction ⊆ s := by
  rw [read?.eq_def] at h
  split at h
  case h_1 p negative r hr =>
    have hrs : r ⊆ s := by
      split at hr
      case h_1 => cases hr; exact List.subset_cons_self _ _
      case h_2 => cases hr; exact List.Subset.refl _
    dsimp only at h
    split at h
    case isTrue => cases h
    case isFalse =>
      split at h
      case h_1 u hu =>
        cases h
        have hur : u ⊆ r := fun c hc ↦
          dropWhile_subset isDigit r (hu ▸ List.mem_cons_of_mem _ hc)
        exact ⟨List.Subset.trans (takeWhile_subset _ r) hrs,
          List.Subset.trans (takeWhile_subset _ u) (List.Subset.trans hur hrs)⟩
      case h_2 =>
        cases h
        exact ⟨List.Subset.trans (takeWhile_subset _ r) hrs, List.nil_subset s⟩

/-- All else in a numeral is common. -/
theorem drawnFrom_text {t : TempoNumeral} (hread : read? s = some t) (h : DrawnFrom src s) :
    DrawnFrom src t.text := by
  obtain ⟨hwhole, hfraction⟩ := parts_subset hread
  rw [text]
  refine .append (.append ?_ (h.subset hwhole)) ?_
  · split
    · exact .of_common (by decide)
    · exact .nil
  · split
    · exact .nil
    · exact .cons (.inr (by decide)) (h.subset hfraction)

end TempoNumeral

theorem drawnFrom_findTempo? {t : TempoNumeral} (hfind : findTempo? s = some t)
    (h : DrawnFrom src s) : DrawnFrom src t.text := by
  obtain ⟨u, hu, hread⟩ := findBehind?_subset hfind
  refine TempoNumeral.drawnFrom_text hread (((drawnFrom_unquote h).subset hu).subset ?_)
  exact List.Subset.trans (dropWhile_subset _ _)
    (List.Subset.trans (dropSetter_subset _) (dropWhile_subset _ u))

/-! ## Measure headers -/

namespace MeasureHeader

theorem dropRangeMark?_subset {r : List Char} (h : dropRangeMark? s = some r) : r ⊆ s := by
  unfold dropRangeMark? at h
  split at h
  · cases h
    exact List.subset_cons_of_subset _ (List.subset_cons_self _ _)
  · cases h
    exact List.subset_cons_self _ _
  · cases h

theorem readLast?_subset {ds r : List Char} (h : readLast? s = some (ds, r)) : r ⊆ s := by
  rw [readLast?] at h
  obtain ⟨t, ht, h⟩ := Option.bind_eq_some_iff.mp h
  dsimp only at h
  split at h
  · cases h
  · cases h
    exact List.Subset.trans (dropWhile_subset _ _) (List.Subset.trans (dropWhile_subset _ t)
      (List.Subset.trans (dropRangeMark?_subset ht) (dropWhile_subset _ s)))

theorem dropKeyword_subset {r : List Char} (h : dropKeyword s = some r) : r ⊆ s := by
  rw [dropKeyword] at h
  rcases Option.or_eq_some_iff.mp h with h | ⟨-, h⟩
  all_goals
    obtain ⟨t, ht, h⟩ := Option.bind_eq_some_iff.mp h
    exact List.Subset.trans (dropBlanks?_subset h) (dropKeyword?_subset ht)

theorem rest_subset {m : MeasureHeader} (h : read? s = some m) : m.rest ⊆ s := by
  replace h := (Option.filter_eq_some_iff.mp h).1
  rw [front?] at h
  obtain ⟨t, ht, h⟩ := Option.bind_eq_some_iff.mp h
  have hsub : t.dropWhile isDigit ⊆ s :=
    List.Subset.trans (dropWhile_subset _ t) (dropKeyword_subset ht)
  dsimp only at h
  split at h
  · cases h
  split at h
  case h_1 last rest hlast =>
    cases h
    exact List.Subset.trans (readLast?_subset hlast) hsub
  case h_2 =>
    split at h
    · cases h
      exact hsub
    · cases h

end MeasureHeader

/-! ## Bodies -/

namespace Segmenting

/-- The texts of all that is known are drawn from a source. -/
structure Drawn (src : List Char) (g : Segmenting) : Prop where
  /-- The title. -/
  title : ∀ t, g.title? = some t → DrawnFrom src t
  /-- The composer. -/
  composer : ∀ t, g.composer? = some t → DrawnFrom src t
  /-- The staff lines of the blocks before the current one. -/
  closed : ∀ b ∈ g.closed, ∀ l ∈ b.lines, DrawnFrom src l.2
  /-- The staff lines of the current block. -/
  current : ∀ b, g.current? = some b → ∀ l ∈ b.lines, DrawnFrom src l.2

namespace Drawn

variable {g : Segmenting}

theorem blocks (h : g.Drawn src) : ∀ b ∈ g.blocks, ∀ l ∈ b.lines, DrawnFrom src l.2 := by
  rw [Segmenting.blocks, List.forall_mem_append]
  exact ⟨h.closed, fun b hb ↦ h.current b (Option.mem_toList.mp hb)⟩

theorem setNames (h : g.Drawn src) (hs : DrawnFrom src s) : (g.setNames s).Drawn src where
  title := fun t ht ↦ by
    rw [Segmenting.setNames] at ht
    cases hfind : findTitle? s with
    | some v =>
      rw [hfind] at ht
      cases ht
      exact hs.subset (findTitle?_subset hfind)
    | none =>
      rw [hfind] at ht
      exact h.title t ht
  composer := fun t ht ↦ by
    rw [Segmenting.setNames] at ht
    cases hfind : findComposer? s with
    | some v =>
      rw [hfind] at ht
      cases ht
      exact hs.subset (findComposer?_subset hfind)
    | none =>
      rw [hfind] at ht
      exact h.composer t ht
  closed := h.closed
  current := h.current

theorem updateBlock (h : g.Drawn src) : g.updateBlock.Drawn src where
  title := h.title
  composer := h.composer
  closed := h.closed
  current := fun b hb ↦ by
    obtain ⟨b', hb', rfl⟩ := Option.map_eq_some_iff.mp hb
    exact h.current b' hb'

end Drawn

variable {g : Segmenting}

theorem draws_setTempo (line : Nat) (h : g.Drawn src) (hs : DrawnFrom src s) :
    (setTempo line g s).Draws src (Drawn src) := by
  rw [setTempo]
  cases hfind : findTempo? s with
  | none => exact .pure h
  | some t =>
    dsimp only
    split
    · exact .pure ⟨h.title, h.composer, h.closed, h.current⟩
    · refine .bind (.note (List.forall_mem_singleton.mpr ?_)) fun _ _ ↦ .pure h
      rw [String.toList_ofList]
      exact drawnFrom_findTempo? hfind hs

theorem draws_setTimeSignature (line : Nat) (h : g.Drawn src) :
    (setTimeSignature line g s).Draws src (Drawn src) := by
  rw [setTimeSignature]
  rcases findTimeSignature? s with _ | ⟨n, d⟩
  · exact .pure h
  · refine .bind (.ofExcept fun _ _ ↦ trivial) fun _ _ ↦
      .bind (.ofExcept fun _ _ ↦ trivial) fun _ _ ↦ ?_
    split
    · exact .pure ⟨h.title, h.composer, h.closed, h.current⟩
    · exact .bind (.note fun _ ht ↦ absurd ht List.not_mem_nil) fun _ _ ↦ .pure h

theorem draws_applyDirective (line : Nat) (h : g.Drawn src) (hs : DrawnFrom src s) :
    (applyDirective line g s).Draws src (Drawn src) :=
  .bind (draws_setTempo line h hs) fun _ h ↦ .bind (draws_setTimeSignature line h) fun _ h ↦
    .pure (h.setNames hs).updateBlock

theorem draws_openBlock (line : Nat) (h : g.Drawn src) (m : MeasureHeader) :
    (openBlock line g m).Draws src (Drawn src) := by
  have hrange (first last : Nat) : (openRange line g first last).Draws src (Drawn src) := by
    have hopen (first last : Int) : Drawn src { g with
        closed := g.blocks
        current? := some { first, last, tempo := g.tempo, timeSignature := g.timeSignature } } :=
      ⟨h.title, h.composer, h.blocks, by
        rintro _ ⟨⟩
        exact fun _ hl ↦ absurd hl List.not_mem_nil⟩
    rw [openRange]
    dsimp only
    split
    · exact .bind (.note fun _ ht ↦ absurd ht List.not_mem_nil) fun _ _ ↦
        .bind (.note trivial) fun _ _ ↦ .pure (hopen _ _)
    · exact .bind (.note trivial) fun _ _ ↦ .pure (hopen _ _)
  rw [openBlock_eq]
  exact .bind (.ofExcept fun _ _ ↦ trivial) fun first _ ↦
    .bind (.ofExcept fun _ _ ↦ trivial) fun last _ ↦ hrange first last

theorem draws_addLine (line : Nat) (h : g.Drawn src) (hs : DrawnFrom src s) :
    (addLine line g s).Draws src (Drawn src) := by
  rw [addLine]
  split
  · exact .pure h
  split
  case h_1 =>
    refine .bind (.note (List.forall_mem_singleton.mpr ?_)) fun _ _ ↦ .pure h
    rwa [String.toList_ofList]
  case h_2 => exact .bind (.note fun _ ht ↦ absurd ht List.not_mem_nil) fun _ _ ↦ .pure h
  case h_3 _ b _ hb =>
    refine .pure ⟨h.title, h.composer, h.closed, ?_⟩
    rintro _ ⟨⟩
    rw [List.forall_mem_append, List.forall_mem_singleton]
    exact ⟨h.current b hb, hs⟩

/-- What stands behind a measure header is part of its line. -/
theorem draws_step (line : Nat) (h : g.Drawn src) (hs : DrawnFrom src s) :
    (step line g s).Draws src (Drawn src) := by
  induction g, s using step.induct with
  | case1 g s hdir =>
    rw [step, if_pos hdir]
    exact draws_applyDirective line ⟨h.title, h.composer, h.closed, h.current⟩ hs
  | case2 g s hdir header hread ih =>
    rw [step, if_neg hdir]
    split
    case h_1 header' hread' =>
      obtain rfl := Option.some.inj (hread.symm.trans hread')
      refine .bind (draws_openBlock line h header) fun g hg ↦ ?_
      dsimp only
      split
      · exact .pure hg
      · exact ih g hg (hs.subset (List.Subset.trans (trim_subset _)
          (MeasureHeader.rest_subset hread)))
    case h_2 hread' => cases hread.symm.trans hread'
  | case3 g s hdir hread =>
    rw [step, if_neg hdir]
    split
    case h_1 header' hread' => cases hread.symm.trans hread'
    case h_2 => exact draws_addLine line h hs

theorem draws_readLine (h : g.Drawn src) {l : Nat × List Char} (hl : DrawnFrom src l.2) :
    (readLine g l).Draws src (Drawn src) := by
  rw [readLine]
  split
  · exact .pure h
  · exact draws_step l.1 h (hl.subset (trim_subset _))

end Segmenting

/-- The texts of a body are drawn from a source. -/
structure Body.Drawn (src : List Char) (body : Body) : Prop where
  /-- The title. -/
  title : ∀ t, body.title? = some t → DrawnFrom src t.toList
  /-- The composer. -/
  composer : ∀ t, body.composer? = some t → DrawnFrom src t.toList
  /-- The staff lines. -/
  lines : ∀ b ∈ body.blocks, ∀ l ∈ b.lines, DrawnFrom src l.2

/-- The texts of a body, and those in the problems on the way, come from its lines. -/
theorem Body.draws_segment (defaults : Defaults) {ls : List (Nat × List Char)}
    (hls : ∀ l ∈ ls, DrawnFrom src l.2) : (segment defaults ls).Draws src (Drawn src) := by
  have hofList {t? : Option (List Char)} (h : ∀ t, t? = some t → DrawnFrom src t) (t : String)
      (ht : t?.map String.ofList = some t) : DrawnFrom src t.toList := by
    obtain ⟨u, hu, rfl⟩ := Option.map_eq_some_iff.mp ht
    rw [String.toList_ofList]
    exact h u hu
  refine .bind (.foldlM (fun _ l hl hg ↦ Segmenting.draws_readLine hg (hls l hl)) ?_) fun g hg ↦
    .pure ⟨hofList hg.title, hofList hg.composer, hg.blocks⟩
  exact ⟨fun _ ht ↦ (by cases ht), fun _ ht ↦ (by cases ht), fun _ hb ↦ absurd hb List.not_mem_nil,
    fun _ hb ↦ (by cases hb)⟩

end TextScore
