import TextScore.Proofs.Drawn
import TextScore.Proofs.Source.Kept
import TextScore.Proofs.Token.Spot
import TextScore.Timeline

/-!
# Where the texts of tokens come from

A staff line is played with its fragments put in and its repeats written out.  Both put parts of the
score together with single spaces between them, and cutting the result into tokens takes it apart
again.  No character comes in on the way that is neither of the score nor a space.

* `Macro.Table.Drawn`, `Draft.drawnFrom_prepare` — the fragments of a text, and its lines.
* `Repeat.ensures_expand` — repeats written out.
* `Token.Drawn`, `Assembly.draws_tokens` — the tokens of a staff line.
-/

set_option autoImplicit false

namespace TextScore

open Text

variable {src s : List Char}

/-! ## Fragments -/

namespace Macro

namespace Definition

variable {before : Bool} {r : List Char} {d : Definition}

theorem rest_subset (h : read? before s = some (d, r)) : r ⊆ s := by
  rw [read?_eq h]
  exact List.subset_append_right _ r

theorem written_subset (h : read? before s = some (d, r)) : d.written ⊆ s := by
  rw [read?_eq h]
  exact List.subset_append_left _ r

theorem body_subset_written (h : read? before s = some (d, r)) : d.body ⊆ d.written := by
  rw [read?] at h
  split at h
  case h_2 => cases h
  case h_1 opening t _ =>
    rw [dropAssignment?] at h
    dsimp only at h
    split at h
    case h_2 => cases h
    split at h
    case h_2 => cases h
    split at h
    case h_2 => cases h
    cases h
    intro c hc
    exact List.mem_append_left _ (List.mem_append_right _ (List.mem_cons_of_mem _ hc))

end Definition

theorem Reference.rest_subset {r : List Char} {x : Reference} (h : read? s = some (x, r)) :
    r ⊆ s := by
  rw [read?_eq h]
  exact List.subset_cons_of_subset _
    (List.subset_append_of_subset_right _ (List.subset_append_right _ r))

theorem Reference.name_subset {r : List Char} {x : Reference} (h : read? s = some (x, r)) :
    x.name ⊆ s := by
  rw [read?_eq h]
  exact List.subset_cons_of_subset _ (List.subset_append_left _ _)

namespace Table

/-- All fragments are drawn from a source. -/
def Drawn (src : List Char) (t : Table) : Prop :=
  ∀ name fragment, t.get? name = some fragment → DrawnFrom src fragment.toList

theorem drawn_empty : Drawn src ∅ := fun _ _ h ↦ by cases h

theorem Drawn.fragment {t : Table} (h : t.Drawn src) (x : Reference) :
    DrawnFrom src (t.fragment x) := by
  rw [Table.fragment]
  cases hget : t.get? (String.ofList x.name) with
  | some fragment => exact h _ fragment hget
  | none => exact .nil

theorem Drawn.define {t : Table} (h : t.Drawn src) {d : Definition}
    (hd : DrawnFrom src d.body) : (t.define d).Drawn src := by
  refine OrderedMap.forall_put h ?_
  rw [String.toList_ofList]
  exact .joinWith (.of_common (by decide)) fun w hw ↦ hd.subset (subset_of_mem_words hw)

/-- The definitions of a text, taken out of it and put into a table. -/
theorem drawn_collect (h : DrawnFrom src s) :
    DrawnFrom src (collect ∅ s).1 ∧ (collect ∅ s).2.Drawn src := by
  have hwritten {d : Definition} (hd : d ∈ found (Definition.recogniser.pieces s)) :
      DrawnFrom src d.written ∧ DrawnFrom src d.body := by
    obtain ⟨b, t, r, ht, hread⟩ := Recogniser.exists_of_mem_found
      (p := Definition.recogniser) (fun h ↦ Definition.rest_subset h) hd
    have hsub := (h.subset ht).subset (Definition.written_subset hread)
    exact ⟨hsub, hsub.subset (Definition.body_subset_written hread)⟩
  constructor
  · exact Recogniser.drawnFrom_fill (fun h ↦ Definition.rest_subset h) h fun d hd ↦
      (hwritten hd).1.subset (List.filter_subset_self _)
  · show ((found (Definition.recogniser.pieces s)).foldl define ∅).Drawn src
    generalize found (Definition.recogniser.pieces s) = ds at hwritten
    suffices hfold : ∀ t : Table, t.Drawn src → (ds.foldl define t).Drawn src from
      hfold ∅ drawn_empty
    induction ds with
    | nil => exact fun t ht ↦ ht
    | cons d ds ih =>
      intro t ht
      exact ih (fun hd ↦ hwritten (List.mem_cons_of_mem d hd)) _
        (ht.define (hwritten List.mem_cons_self).2)

/-- A text with its fragments put in, and the problems with its references. -/
theorem drawn_expand {t : Table} (ht : t.Drawn src) (h : DrawnFrom src s) :
    DrawnFrom src (t.expand s).1 ∧ ∀ p ∈ (t.expand s).2, p.Drawn src := by
  constructor
  · exact Recogniser.drawnFrom_fill (fun h ↦ Reference.rest_subset h) h fun x _ ↦ ht.fragment x
  · intro p hp
    obtain ⟨x, hx, hproblem⟩ := List.mem_filterMap.mp hp
    obtain ⟨b, u, r, hu, hread⟩ := Recogniser.exists_of_mem_found
      (p := Reference.recogniser) (fun h ↦ Reference.rest_subset h) hx
    have hname : ∀ y ∈ [String.ofList x.name], DrawnFrom src y.toList := by
      rw [List.forall_mem_singleton, String.toList_ofList]
      exact (h.subset hu).subset (Reference.name_subset hread)
    rw [problem?] at hproblem
    split at hproblem
    · cases hproblem
      exact hname
    split at hproblem
    · cases hproblem
    · cases hproblem
      exact hname

end Table

end Macro

theorem Comment.drawnFrom_strip (h : DrawnFrom src s) : DrawnFrom src (strip s) := by
  refine .unlines fun l hl ↦ ?_
  obtain ⟨l', hl', rfl⟩ := List.mem_map.mp hl
  exact h.subset (List.Subset.trans (isPrefix_stripLine l').subset (subset_of_mem_splitOnChar hl'))

/-- The lines of a text without comments and definitions, and the fragments. -/
theorem Draft.drawnFrom_prepare (h : DrawnFrom src s) :
    (∀ l ∈ (prepare s).1, DrawnFrom src l.2) ∧ (prepare s).2.Drawn src := by
  obtain ⟨htext, hmacros⟩ := Macro.Table.drawn_collect (Comment.drawnFrom_strip h)
  exact ⟨fun l hl ↦ htext.subset (subset_of_mem_numbered hl), hmacros⟩

/-! ## Repeats -/

namespace Repeat

namespace Group

variable {r : List Char}

theorem readCount?_subset {ds : List Char} (h : readCount? s = some (ds, r)) : r ⊆ s := by
  rw [readCount?] at h
  split at h
  case h_1 c t ht =>
    dsimp only at h
    split at h
    · cases h
      refine List.Subset.trans (dropWhile_subset _ _) (List.Subset.trans (dropWhile_subset _ t) ?_)
      refine fun e he ↦ dropWhile_subset isBlank s ?_
      rw [ht]
      exact List.mem_cons_of_mem c he
    · cases h
  case h_2 => cases h

theorem read?_subset {g : Group} (h : read? s = some (g, r)) : g.body ⊆ s ∧ r ⊆ s := by
  unfold read? at h
  split at h
  case h_1 s =>
    split at h
    case h_1 t ht =>
      obtain ⟨⟨ds, u⟩, hcount, hg⟩ := Option.map_eq_some_iff.mp h
      cases hg
      refine ⟨List.subset_cons_of_subset _ (takeWhile_subset _ s),
        List.subset_cons_of_subset _ fun c hc ↦ dropWhile_subset (fun c ↦ !isBrace c) s ?_⟩
      rw [ht]
      exact List.mem_cons_of_mem _ (readCount?_subset hcount hc)
    case h_2 => cases h
  case h_2 => cases h

theorem drawnFrom_expansion {g : Group} (h : DrawnFrom src g.body) :
    DrawnFrom src g.expansion := by
  refine .joinWith (.of_common (by decide)) fun t ht ↦ ?_
  rw [(List.mem_replicate.mp ht).2]
  exact h.subset (trim_subset _)

theorem ensures_check (g : Group) : g.check.Ensures (Problem.Drawn src) fun _ ↦ True := by
  refine .bind (.ofExcept fun _ _ ↦ trivial) fun n _ ↦ ?_
  split
  · exact .note fun _ ht ↦ absurd ht List.not_mem_nil
  · exact .pure trivial

end Group

/-- By induction along the passes. -/
theorem ensures_expand (h : DrawnFrom src s) :
    (expand s).Ensures (Problem.Drawn src) (DrawnFrom src) := by
  induction s using expand.induct with
  | case1 s ps hnone =>
    rw [expand, dif_pos hnone]
    exact .pure h
  | case2 s ps hsome ih =>
    have hbody {g : Group} (hg : g ∈ found ps) : DrawnFrom src g.body := by
      obtain ⟨b, t, r, ht, hread⟩ := Recogniser.exists_of_mem_found
        (p := Group.recogniser) (fun h ↦ (Group.read?_subset h).2) hg
      exact (h.subset ht).subset (Group.read?_subset hread).1
    have hpass : DrawnFrom src (expandInnermost ps) :=
      Recogniser.drawnFrom_fill (fun h ↦ (Group.read?_subset h).2) h fun _ hg ↦
        Group.drawnFrom_expansion (hbody hg)
    rw [expand, dif_neg hsome]
    exact .bind (.forM fun g _ ↦ g.ensures_check) fun _ _ ↦ ih hpass

end Repeat

/-! ## Tokens -/

theorem Spot.kept_subset (p : Spot) (s : List Char) : p.kept s ⊆ s := by
  induction s generalizing p with
  | nil => exact List.Subset.refl []
  | cons c s ih =>
    rw [kept]
    split
    · exact List.subset_cons_of_subset c (ih _)
    · exact List.cons_subset_cons c (ih _)

theorem subset_of_mem_splitTokens {t : List Char} (h : t ∈ splitTokens s) : t ⊆ s := by
  intro c hc
  have hflat : c ∈ (splitTokens s).flatten := List.mem_flatten.mpr ⟨t, h, hc⟩
  rw [flatten_splitTokens] at hflat
  exact Spot.kept_subset _ s hflat

theorem subset_of_splitDuration {code : List Char} (h : (splitDuration s).2 = some code) :
    code ⊆ s := by
  rw [splitDuration] at h
  dsimp only at h
  split at h
  case h_1 c d r hs =>
    cases h
    have hsub : d :: r ⊆ s := fun e he ↦ dropWhile_subset (· != ':') s (by
      rw [hs]
      exact List.mem_cons_of_mem c he)
    rw [durationCode]
    split
    · exact hsub
    · exact List.Subset.trans (takeWhile_subset _ _) hsub
  case h_2 => cases h

theorem gridCode?_subset {code : List Char} (h : gridCode? s = some code) : code ⊆ s := by
  unfold gridCode? at h
  split at h
  case h_1 t =>
    dsimp only at h
    split at h
    · cases h
    · cases h
      exact List.subset_cons_of_subset _ (dropFinalLineFeed_subset t)
  case h_2 => cases h

theorem splitChord_subset (s : List Char) : (splitChord s).1 ⊆ s ∧ (splitChord s).2 ⊆ s := by
  rw [splitChord]
  split
  case h_1 => exact ⟨List.Subset.refl s, List.nil_subset s⟩
  case h_2 c inner hinner =>
    refine ⟨fun d hd ↦ ?_, fun d hd ↦ ?_⟩
    · refine List.mem_reverse.mp (dropWhile_subset (· != ']') s.reverse ?_)
      rw [hinner]
      exact List.mem_cons_of_mem c (List.mem_reverse.mp hd)
    · exact List.mem_reverse.mp (takeWhile_subset _ _ (List.mem_reverse.mp hd))

theorem subset_of_mem_chordPitches {p : List Char} (h : p ∈ chordPitches s) : p ⊆ s := by
  obtain ⟨w, hw, rfl⟩ := List.mem_map.mp (List.mem_filter.mp h).1
  exact List.Subset.trans (List.filter_subset_self _) (subset_of_mem_words hw)

namespace Token

/-- The texts in a token. -/
def texts : Token → List String
  | pitch text duration? => text :: duration?.toList
  | chord pitches duration? => pitches ++ duration?.toList
  | rest duration? => duration?.toList
  | grid duration => [duration]
  | barline => []
  | marking text => [text]
  | unknown text => [text]

/-- The texts in a token are drawn from a source. -/
def Drawn (src : List Char) (t : Token) : Prop := ∀ x ∈ t.texts, DrawnFrom src x.toList

theorem drawnFrom_duration (h : DrawnFrom src s) :
    ∀ x ∈ ((splitDuration s).2.map String.ofList).toList, DrawnFrom src x.toList := by
  intro x hx
  obtain ⟨code, hcode, rfl⟩ := Option.map_eq_some_iff.mp (Option.mem_toList.mp hx)
  rw [String.toList_ofList]
  exact h.subset (subset_of_splitDuration hcode)

theorem drawn_readNote (h : DrawnFrom src s) : (readNote s).Drawn src := by
  rw [readNote]
  dsimp only
  split
  · exact drawnFrom_duration h
  split
  · refine List.forall_mem_cons.mpr ⟨?_, drawnFrom_duration h⟩
    rw [String.toList_ofList]
    exact h.subset (takeWhile_subset _ s)
  · refine List.forall_mem_singleton.mpr ?_
    rwa [String.toList_ofList]

theorem drawn_read (h : DrawnFrom src s) : (read s).Drawn src := by
  have hmarking : (marking (String.ofList s)).Drawn src := by
    refine List.forall_mem_singleton.mpr ?_
    rwa [String.toList_ofList]
  unfold read
  split
  · exact fun _ hx ↦ absurd hx List.not_mem_nil
  split
  case h_1 code hcode =>
    refine List.forall_mem_singleton.mpr ?_
    rw [String.toList_ofList]
    exact h.subset (gridCode?_subset hcode)
  case h_2 =>
    split
    · exact hmarking
    · exact hmarking
    case h_3 r _ _ =>
      obtain ⟨hinner, hsuffix⟩ := splitChord_subset r
      have hr : DrawnFrom src r := h.subset (List.subset_cons_self _ r)
      refine List.forall_mem_append.mpr ⟨?_, drawnFrom_duration (hr.subset hsuffix)⟩
      intro x hx
      obtain ⟨p, hp, rfl⟩ := List.mem_map.mp hx
      rw [String.toList_ofList]
      exact (hr.subset hinner).subset (subset_of_mem_chordPitches hp)
    · exact drawn_readNote h

end Token

/-- The tokens of a staff line, and the problems on the way, come from the line and from the
fragments. -/
theorem Assembly.draws_tokens {macros : Macro.Table} (hmacros : macros.Drawn src) (line : Nat)
    (h : DrawnFrom src s) : (tokens macros line s).Draws src fun ts ↦ ∀ t ∈ ts, t.Drawn src := by
  obtain ⟨htext, hproblems⟩ := Macro.Table.drawn_expand hmacros h
  rw [tokens_eq]
  refine .bind (.forM fun p hp ↦ .note (hproblems p hp)) fun _ _ ↦
    .bind (Pass.draws_atLine (Repeat.ensures_expand htext)) fun text htext ↦ .pure fun t ht ↦ ?_
  obtain ⟨u, hu, rfl⟩ := List.mem_map.mp ht
  exact Token.drawn_read (htext.subset (subset_of_mem_splitTokens hu))

end TextScore
