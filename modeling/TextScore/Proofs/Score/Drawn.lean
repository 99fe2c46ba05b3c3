import TextScore.Proofs.Timeline.Drawn
import TextScore.Score.Listing

/-!
# Where the characters of a listing come from

A listing shows names, ids and messages of a score, with words and numbers of the program around
them.  So whatever character is in a listing is common or stands in the score.

It is asked for because of one character.  On standard output, what a terminal would take for an
escape is dropped, and in a file it is not; so the two are the same if the escape character is not
in what is shown.  That is a question about the text of the score, if everything that is shown is
drawn from it.  Being drawn from a source is kept by all that is done to texts, cutting them and
putting them together, and it is carried through the stages of a compilation step by step.

## What is here

* `Score.Drawn` — the texts of a score that a listing shows are drawn from a source.
* `Draft.draws_ofText` — a whole compilation.
* `Score.drawnFrom_listing` — the listing of a score.
* `Score.drawnFrom_listing_ofText` — the listing of a text that compiles.
-/

set_option autoImplicit false

namespace TextScore

open Text Number

variable {src : List Char}

/-! ## Scores

Messages of problems quote the text, so they are drawn from it, too. -/

/-- The texts of a layout are drawn from a source. -/
structure GroupLayout.Drawn (src : List Char) (g : GroupLayout) : Prop where
  /-- The name of the group. -/
  name : DrawnFrom src g.name.toList
  /-- The ids of its instruments. -/
  ids : ∀ r ∈ g.rows, DrawnFrom src r.id.toList
  /-- Their names. -/
  names : ∀ r ∈ g.rows, DrawnFrom src r.name.toList

/-- The texts of a score that a listing shows are drawn from a source. -/
structure Score.Drawn (src : List Char) (s : Score) : Prop where
  /-- The notes. -/
  events : ∀ e ∈ s.events, e.Drawn src
  /-- The groups. -/
  groups : ∀ g ∈ s.groups, g.Drawn src
  /-- The title. -/
  title : ∀ t, s.title? = some t → DrawnFrom src t.toList
  /-- The composer. -/
  composer : ∀ t, s.composer? = some t → DrawnFrom src t.toList
  /-- What the writer of the score should know. -/
  diagnostics : ∀ d ∈ s.diagnostics, DrawnFrom src d.text.toList

namespace Draft

/-- The texts of a draft are drawn from a source. -/
structure Drawn (src : List Char) (d : Draft) : Prop where
  /-- The notes. -/
  events : ∀ e ∈ d.events, e.Drawn src
  /-- The groups. -/
  groups : ∀ g ∈ d.groups, g.Drawn src
  /-- The title, the composer and the staff lines. -/
  body : d.body.Drawn src

/-- The rows of a group have the ids of its members and the names of the instruments. -/
theorem drawn_layout {e : Ensemble} (he : e.Drawn src) {g : Group} (hg : g.Drawn src)
    {l : GroupLayout} (h : layout e g = .ok l) : l.Drawn src := by
  obtain ⟨rows, hrows, h⟩ := bind_eq_ok h
  cases h
  have hrow : ∀ r ∈ rows, DrawnFrom src r.id.toList ∧ DrawnFrom src r.name.toList := by
    intro r hr
    obtain ⟨id, hid, hrow⟩ := exists_of_mem_mapM hrows hr
    split at hrow
    case h_1 i hi =>
      cases hrow
      exact ⟨hg.members id hid, (he.instruments id i hi).displayName⟩
    case h_2 => cases hrow
  exact ⟨hg.name, fun r hr ↦ (hrow r hr).1, fun r hr ↦ (hrow r hr).2⟩

theorem draws_ofTimeline {body : Body} (hbody : body.Drawn src) {t : Timeline}
    (ht : t.assembly.Drawn src) : (ofTimeline body t).Draws src (Drawn src) := by
  have hrest : Pass.Draws src (Drawn src) (do
      let groups ← Noted.ofExcept
        (t.assembly.ensemble.groups.mapM (layout t.assembly.ensemble))
      return {
        events := t.assembly.events.toList.mergeSort NoteEvent.notAfter
        ensemble := t.assembly.ensemble, groups, body }) := by
    refine .bind (.ofExcept fun ls hls l hl ↦ ?_) fun groups hgroups ↦
      .pure ⟨fun e he ↦ ?_, hgroups, hbody⟩
    · obtain ⟨g, hg, hlayout⟩ := exists_of_mem_mapM hls hl
      exact drawn_layout ht.ensemble (ht.ensemble.groups g hg) hlayout
    · exact ht.events e (Array.mem_toList_iff.mp (List.mem_mergeSort.mp he))
  rw [ofTimeline]
  dsimp only
  split
  · exact .bind (.note fun _ hx ↦ absurd hx List.not_mem_nil) fun _ _ ↦ hrest
  · exact hrest

/-- **Compiling invents no characters.**  All texts that are read off a score, and those in the
problems on the way, are drawn from it. -/
theorem draws_ofText {defaults : Defaults} (hdefaults : defaults.Drawn src) {text : List Char}
    (h : DrawnFrom src text) : (ofText defaults text).Draws src (Drawn src) := by
  obtain ⟨hlines, hmacros⟩ := drawnFrom_prepare h
  exact .bind (.forM fun _ _ ↦ .note trivial) fun _ _ ↦
    .bind (Ensemble.draws_collect hdefaults hlines) fun _ he ↦
      .bind (Body.draws_segment defaults hlines) fun _ hbody ↦
        .bind (Timeline.draws_ofBlocks hmacros he hbody.lines) fun _ ht ↦
          draws_ofTimeline hbody ht

end Draft

theorem Diagnostic.drawnFrom_text {line : Nat} {p : Problem} (h : p.Drawn src) :
    DrawnFrom src (ofProblem line p).text.toList := by
  have hseverity : DrawnFrom src p.severity.label.toList := by
    have hcases : p.severity = .info ∨ p.severity = .warning := by
      cases p <;> simp [Problem.severity]
    rcases hcases with h | h <;> rw [h] <;> exact .of_common (by decide)
  have hbody : DrawnFrom src (p.severity.label ++ ": " ++ p.message).toList := by
    rw [String.toList_append, String.toList_append]
    exact (hseverity.append (.of_common (by decide))).append h.message
  rw [text]
  split
  · exact hbody
  · rw [String.toList_append, String.toList_append]
    exact ((Problem.drawnFrom_number _).append (.of_common (by decide))).append hbody

namespace Score

theorem drawn_ofText {defaults : Defaults} (hdefaults : defaults.Drawn src) {text : String}
    (h : DrawnFrom src text.toList) {s : Score} (hs : (ofText defaults text).1 = .ok s) :
    s.Drawn src := by
  obtain ⟨hvalue, hnotes⟩ := (Draft.draws_ofText hdefaults h).outcome
  rw [ofText_fst] at hs
  obtain ⟨d, hd, rfl⟩ := map_eq_ok hs
  have hdraft := hvalue d hd
  refine ⟨hdraft.events, hdraft.groups, hdraft.body.title, hdraft.body.composer, fun x hx ↦ ?_⟩
  obtain ⟨r, hr, rfl⟩ := Journal.exists_report (Array.mem_toList_iff.mp hx)
  exact Diagnostic.drawnFrom_text (hnotes _ (Journal.mem_reports.mp hr))

/-! ## Listings

Bars and blanks are common, and so are all characters of numbers. -/

theorem drawnFrom_padLeft {s : List Char} (width : Nat) (h : DrawnFrom src s) :
    DrawnFrom src (padLeft width s) :=
  (DrawnFrom.replicate _ (.inr (by decide))).append h

theorem drawnFrom_padRight {s : List Char} (width : Nat) (h : DrawnFrom src s) :
    DrawnFrom src (padRight width s) :=
  h.append (.replicate _ (.inr (by decide)))

/-- A double, named or not, is written with common characters. -/
theorem drawnFrom_showFixed (places : Nat) (x : Float) : DrawnFrom src (showFixed places x) := by
  have hsign (negative : Bool) {s : List Char} (h : DrawnFrom src s) :
      DrawnFrom src (withSign negative s) := by
    cases negative with
    | true => exact .cons (.inr (by decide)) h
    | false => exact h
  have hpoint {ds : List Char} (places : Nat) (h : DrawnFrom src ds) :
      DrawnFrom src (insertPoint ds places) := by
    have hpadded : DrawnFrom src (List.replicate (places + 1 - ds.length) '0' ++ ds) :=
      (DrawnFrom.replicate _ (.inr (by decide))).append h
    rw [insertPoint]
    split
    · exact hpadded
    · exact (hpadded.subset (List.take_subset _ _)).append
        (.cons (.inr (by decide)) (hpadded.subset (List.drop_subset _ _)))
  rw [showFixed, showDouble]
  split
  · exact .of_common (by decide)
  · exact hsign _ (.of_common (by decide))
  · exact hsign _ (hpoint places (drawnFrom_digits _))

theorem drawnFrom_noteLine {room : Nat} {e : NoteEvent} (he : e.Drawn src) {l : List Char}
    (h : noteLine room e = .ok l) : DrawnFrom src l := by
  obtain ⟨bar, -, h⟩ := bind_eq_ok h
  cases h
  have hstart : DrawnFrom src (padLeft 8 (showFixed 3 e.start)) :=
    drawnFrom_padLeft 8 (drawnFrom_showFixed 3 e.start)
  have hunit : DrawnFrom src ['s', ' ', ' '] := .of_common (by decide)
  have hblank : DrawnFrom src [' '] := .of_common (by decide)
  have hid := (hstart.append hunit).append (drawnFrom_padRight 8 he.instrumentId)
  have hpitch := (hid.append hblank).append (drawnFrom_padRight 5 he.pitch)
  exact (hpitch.append hblank).append (.replicate _ (.inr (by decide)))

theorem drawnFrom_groupLine {g : GroupLayout} (h : g.Drawn src) : DrawnFrom src (groupLine g) := by
  refine (h.name.append (.of_common (by decide))).append
    (.joinWith (.of_common (by decide)) fun l hl ↦ ?_)
  obtain ⟨r, hr, rfl⟩ := List.mem_map.mp hl
  simp only [String.toList_append]
  exact (((h.names r hr).append (.of_common (by decide))).append (h.ids r hr)).append
    (.of_common (by decide))

theorem drawnFrom_titleLines {s : Score} (h : s.Drawn src) :
    ∀ l ∈ s.titleLines, DrawnFrom src l := by
  have hgetD {t? : Option String} (ht : ∀ t, t? = some t → DrawnFrom src t.toList) :
      DrawnFrom src (t?.getD "").toList := by
    cases t? with
    | some t => exact ht t rfl
    | none => exact .nil
  have htitle := hgetD h.title
  have hcomposer := hgetD h.composer
  have hlines {t : List Char} (ht : DrawnFrom src t) : ∀ l ∈ [t, []], DrawnFrom src l :=
    List.forall_mem_cons.mpr ⟨ht, List.forall_mem_singleton.mpr .nil⟩
  rw [titleLines]
  split
  · exact fun _ hl ↦ absurd hl List.not_mem_nil
  · exact hlines htitle
  · refine hlines ?_
    simp only [String.toList_append]
    exact ((htitle.append (.of_common (by decide))).append hcomposer).append
      (.of_common (by decide))

theorem drawnFrom_listing {room : Nat} {s : Score} (h : s.Drawn src) {text : String}
    (htext : s.listingWithin room = .ok text) : DrawnFrom src text.toList := by
  obtain ⟨notes, hnotes, htext⟩ := bind_eq_ok htext
  cases htext
  rw [String.toList_ofList]
  refine .append (.unlines ?_) (.of_common (by decide))
  simp only [List.forall_mem_append, List.forall_mem_cons, List.forall_mem_map]
  refine ⟨⟨⟨⟨drawnFrom_titleLines h, ?_⟩, fun l hl ↦ ?_⟩, .nil, ?_, ?_⟩, h.diagnostics⟩
  · rw [groupLines]
    split
    · exact fun _ hl ↦ absurd hl List.not_mem_nil
    · rw [List.forall_mem_append, List.forall_mem_singleton, List.forall_mem_map]
      exact ⟨fun g hg ↦ drawnFrom_groupLine (h.groups g hg), .nil⟩
  · obtain ⟨e, he, hline⟩ := exists_of_mem_mapM hnotes hl
    exact drawnFrom_noteLine (h.events e he) hline
  · exact (((drawnFrom_digits _).append (.of_common (by decide))).append
      (drawnFrom_showFixed 3 _)).append (.of_common (by decide))
  · exact fun _ hl ↦ absurd hl List.not_mem_nil

/-- **A listing adds only common characters.**  If a text compiles and has a listing, every
character in it is one of the text, or common. -/
theorem drawnFrom_listing_ofText {defaults : Defaults} {text listing : String} {s : Score}
    (hdefaults : defaults.Drawn text.toList) (hs : (ofText defaults text).1 = .ok s)
    (hlisting : s.listing = .ok listing) : DrawnFrom text.toList listing.toList :=
  drawnFrom_listing (drawn_ofText hdefaults (.refl _) hs) hlisting

end Score

end TextScore
