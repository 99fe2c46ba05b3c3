import TextScore.Proofs.Ensemble.Drawn
import TextScore.Proofs.Measure.Assignment
import TextScore.Proofs.Measure.Drawn
import TextScore.Proofs.Pitch
import TextScore.Proofs.Token.Drawn

/-!
# Where the texts of notes come from

A note has the name of a pitch, which the program writes, and the id and the name of an instrument.
Playing invents none: an instrument that nobody declared has the name under which it was met.

* `Playing.ensures_step` — one token more.
* `Assembly.draws_playStaff`, `Timeline.draws_ofBlocks` — staff lines and blocks.

Reports are followed as well, since they go into the diagnostics of a score.  They quote tokens,
duration codes, ids and names of fragments, all of them parts of the text.
-/

set_option autoImplicit false

namespace TextScore

open Text Number

variable {src : List Char}

/-- The texts of a note are drawn from a source. -/
structure NoteEvent.Drawn (src : List Char) (e : NoteEvent) : Prop where
  /-- The sounding pitch by name. -/
  pitch : DrawnFrom src e.pitch.toList
  /-- The instrument that plays it. -/
  instrumentId : DrawnFrom src e.instrumentId.toList

theorem Pitch.drawnFrom_name {p : Pitch} {name : String} (h : p.name = .ok name) :
    DrawnFrom src name.toList := by
  obtain ⟨-, rfl⟩ := name_ok h
  have hclass : ∀ c, (className c).all isCommon = true := by decide
  rw [String.toList_ofList]
  exact (DrawnFrom.of_common (hclass p.pitchClass)).append (drawnFrom_signedDigits p.octave)

/-! ## Playing -/

namespace Staff.Drawn

variable {st : Staff}

theorem durationCode (h : st.Drawn src) {written? : Option String}
    (hwritten : ∀ code ∈ written?.toList, DrawnFrom src code.toList) :
    DrawnFrom src (st.durationCode written?).toList := by
  rw [Staff.durationCode]
  cases written? with
  | some code => exact hwritten code (Option.mem_toList.mpr rfl)
  | none =>
    cases hgrid : st.grid? with
    | some code => exact h.grid code hgrid
    | none => exact h.lastDuration

theorem rememberDuration (h : st.Drawn src) {written? : Option String}
    (hwritten : ∀ code ∈ written?.toList, DrawnFrom src code.toList) :
    (st.rememberDuration written?).Drawn src := by
  unfold Staff.rememberDuration
  split
  · exact ⟨hwritten _ (Option.mem_toList.mpr rfl), h.grid⟩
  · exact h

theorem resolvePitch (h : st.Drawn src) {text : List Char} {x : Staff × Option Pitch}
    (hx : st.resolvePitch text = .ok x) : x.1.Drawn src := by
  rw [Staff.resolvePitch] at hx
  cases hread : Pitch.Spelling.read? text with
  | none =>
    rw [hread] at hx
    cases hx
    exact h
  | some p =>
    rw [hread] at hx
    cases hoctave : p.octave? with
    | none =>
      simp only [hoctave, ok_bind] at hx
      cases hx
      exact ⟨h.lastDuration, h.grid⟩
    | some numeral =>
      simp only [hoctave] at hx
      obtain ⟨octave, -, hx⟩ := bind_eq_ok hx
      cases hx
      exact ⟨h.lastDuration, h.grid⟩

end Staff.Drawn

namespace Playing

/-- The texts of a staff and of the notes so far are drawn from a source. -/
structure Drawn (src : List Char) (p : Playing) : Prop where
  /-- What the staff remembers. -/
  staff : p.staff.Drawn src
  /-- The notes so far. -/
  events : ∀ e ∈ p.events, e.Drawn src

variable {p : Playing} {m : Meter} {i : Instrument}

theorem Drawn.advance (h : p.Drawn src) (seconds : Float) : (p.advance seconds).Drawn src :=
  ⟨h.staff, h.events⟩

theorem ensures_takeDuration (m : Meter) (h : p.Drawn src) {written? : Option String}
    (hwritten : ∀ code ∈ written?.toList, DrawnFrom src code.toList) :
    (p.takeDuration m written?).Ensures (Problem.Drawn src) fun x ↦ x.1.Drawn src := by
  have hp : Drawn src { p with staff := p.staff.rememberDuration written? } :=
    ⟨h.staff.rememberDuration hwritten, h.events⟩
  rw [takeDuration]
  dsimp only
  split
  · exact .bind (.note (List.forall_mem_singleton.mpr (h.staff.durationCode hwritten)))
      fun _ _ ↦ .pure hp
  · exact .pure hp

theorem ensures_takePitch (h : p.Drawn src) {text : String} (htext : DrawnFrom src text.toList) :
    (p.takePitch text).Ensures (Problem.Drawn src) fun x ↦ x.1.Drawn src := by
  refine .bind (.ofExcept fun x hx ↦ h.staff.resolvePitch hx) fun x hx ↦ ?_
  obtain ⟨staff, pitch?⟩ := x
  have hp : Drawn src { p with staff } := ⟨hx, h.events⟩
  cases pitch? with
  | some pitch => exact .pure hp
  | none =>
    dsimp only
    split
    · exact .bind (.fail _) fun (_ : PUnit) (_ : True) ↦
        .bind (.note (List.forall_mem_singleton.mpr htext)) fun _ _ ↦ .pure hp
    · exact .bind (.note (List.forall_mem_singleton.mpr htext)) fun _ _ ↦ .pure hp

theorem ensures_emit (hi : i.Drawn src) (duration : Float) (h : p.Drawn src) {text : String}
    (htext : DrawnFrom src text.toList) :
    (p.emit i duration text).Ensures (Problem.Drawn src) (Drawn src) := by
  rw [emit]
  refine .bind (ensures_takePitch h htext) fun x hx ↦ ?_
  obtain ⟨q, pitch⟩ := x
  refine .bind (.ofExcept fun name h ↦ (Pitch.drawnFrom_name h : DrawnFrom src name.toList))
    fun name hname ↦ ?_
  refine .pure ⟨hx.staff, fun e he ↦ ?_⟩
  rcases Array.mem_push.mp he with he | rfl
  · exact hx.events e he
  · exact ⟨hname, hi.id⟩

theorem ensures_step (m : Meter) (hi : i.Drawn src) (h : p.Drawn src) {t : Token}
    (ht : t.Drawn src) : (p.step m i t).Ensures (Problem.Drawn src) (Drawn src) := by
  cases t with
  | barline => exact .pure ⟨h.staff, h.events⟩
  | grid code =>
    have hcode : DrawnFrom src code.toList := ht code List.mem_cons_self
    have hp : Drawn src { p with staff := p.staff.setGrid code } := by
      refine ⟨⟨h.staff.lastDuration, ?_⟩, h.events⟩
      rintro _ ⟨⟩
      exact hcode
    rw [step]
    dsimp only
    split
    · exact .bind (.note (List.forall_mem_singleton.mpr hcode)) fun _ _ ↦ .pure hp
    · exact .pure hp
  | rest written? =>
    exact .bind (ensures_takeDuration m h ht) fun _ hx ↦ .pure (hx.advance _)
  | pitch text written? =>
    obtain ⟨htext, hwritten⟩ := List.forall_mem_cons.mp ht
    exact .bind (ensures_takeDuration m h hwritten) fun _ hx ↦
      .bind (ensures_emit hi _ hx htext) fun _ hp ↦ .pure (hp.advance _)
  | chord pitches written? =>
    obtain ⟨hpitches, hwritten⟩ := List.forall_mem_append.mp ht
    exact .bind (ensures_takeDuration m h hwritten) fun _ hx ↦
      .bind (.foldlM (fun _ text htext hp ↦ ensures_emit hi _ hp (hpitches text htext)) hx)
        fun _ hp ↦ .pure (hp.advance _)
  | marking text => exact .pure h
  | unknown text =>
    exact .bind (.note (List.forall_mem_singleton.mpr (ht text List.mem_cons_self)))
      fun _ _ ↦ .pure h

end Playing

/-! ## Staff lines and blocks -/

theorem Assignment.Spells.subset_of_mem_ids {ids : List (List Char)} {r s : List Char}
    (h : Spells ids r s) : ∀ id ∈ ids, id ⊆ s := by
  induction h with
  | last => exact List.forall_mem_singleton.mpr (List.subset_append_left _ _)
  | @more id a b r t ids _ _ _ _ ih =>
    refine List.forall_mem_cons.mpr ⟨List.subset_append_left _ _, fun k hk ↦ ?_⟩
    refine List.subset_append_of_subset_right _ (List.subset_append_of_subset_right _ ?_)
    exact List.subset_cons_of_subset _ (List.subset_append_of_subset_right _ (ih k hk))

namespace Assembly

/-- The texts of the ensemble and of the notes so far are drawn from a source. -/
structure Drawn (src : List Char) (a : Assembly) : Prop where
  /-- The instruments and what their staves remember. -/
  ensemble : a.ensemble.Drawn src
  /-- The notes so far. -/
  events : ∀ e ∈ a.events, e.Drawn src

variable {a : Assembly}

theorem draws_playStaff (line : Nat) (b : Block) (start : Float) {tokens : List Token}
    (htokens : ∀ t ∈ tokens, t.Drawn src) (ha : a.Drawn src) {id : String}
    (hid : DrawnFrom src id.toList) :
    (playStaff line b start tokens a id).Draws src (Drawn src) := by
  have hresolve := ha.ensemble.resolve hid
  rw [playStaff]
  generalize a.ensemble.resolve id = x at hresolve
  obtain ⟨i, e, undeclared⟩ := x
  obtain ⟨hi, he⟩ := hresolve
  have hrest : Pass.Draws src (Drawn src) (do
      let staff ← Noted.ofExcept (e.staff id)
      let meter ← Noted.ofExcept (b.meter start)
      let position := (a.positions.get? id).getD ⟨start, 0⟩
      let p ← atLine line (tokens.foldlM (Playing.step meter i) ⟨staff, position, a.events⟩)
      return {
        ensemble := e.setStaff id p.staff
        events := p.events
        positions := a.positions.put id p.position }) :=
    .bind (.ofExcept fun _ hst ↦ he.staff hst) fun st hst ↦
      .bind (.ofExcept fun _ _ ↦ trivial) fun meter _ ↦
        .bind (Pass.draws_atLine (.foldlM
          (fun _ t ht hp ↦ Playing.ensures_step meter hi hp (htokens t ht)) ⟨hst, ha.events⟩))
          fun p hp ↦ .pure ⟨he.setStaff id hp.staff, hp.events⟩
  dsimp only
  split
  · exact .bind (.note (List.forall_mem_singleton.mpr hid)) fun _ _ ↦ hrest
  · exact hrest

theorem draws_playLine {macros : Macro.Table} (hmacros : macros.Drawn src) (b : Block)
    (start : Float) (ha : a.Drawn src) {l : Nat × List Char} (hl : DrawnFrom src l.2) :
    (playLine macros b start a l).Draws src (Drawn src) := by
  rw [playLine]
  cases hread : Assignment.read? l.2 with
  | none => exact .pure ha
  | some s =>
    obtain ⟨r, hspells, -, hcontent⟩ := Assignment.read?_iff.mp hread
    have htrim : DrawnFrom src (trim l.2) := hl.subset (trim_subset _)
    have hs : DrawnFrom src s.content := by
      rw [hcontent]
      exact (htrim.subset hspells.suffix.subset).subset (trim_subset r)
    refine .bind (draws_tokens hmacros l.1 hs) fun tokens htokens ↦ ?_
    refine .foldlM (fun a id hid ha ↦ draws_playStaff l.1 b start htokens ha ?_) ha
    obtain ⟨id', hid', rfl⟩ := List.mem_map.mp hid
    rw [String.toList_ofList]
    exact htrim.subset (hspells.subset_of_mem_ids id' hid')

end Assembly

/-- The texts of all notes, and those in the problems on the way, come from the blocks, from the
fragments and from the ensemble. -/
theorem Timeline.draws_ofBlocks {macros : Macro.Table} (hmacros : macros.Drawn src)
    {e : Ensemble} (he : e.Drawn src) {bs : List Block}
    (hbs : ∀ b ∈ bs, ∀ l ∈ b.lines, DrawnFrom src l.2) :
    (ofBlocks macros e bs).Draws src fun t ↦ t.assembly.Drawn src := by
  refine .foldlM (fun t b hb ht ↦ ?_) ⟨he, fun _ hn ↦ absurd hn (Array.not_mem_empty _)⟩
  have hblock : (t.assembly.playBlock macros b t.secondsOffset).Draws src (Assembly.Drawn src) :=
    .foldlM (fun a l hl ha ↦ Assembly.draws_playLine hmacros b _ ha (hbs b hb l hl))
      ⟨ht.ensemble, ht.events⟩
  exact .bind hblock fun _ ha ↦ .bind (.ofExcept fun _ _ ↦ trivial) fun _ _ ↦
    .bind (.ofExcept fun _ _ ↦ trivial) fun _ _ ↦ .bind (.note trivial) fun _ _ ↦ .pure ha

end TextScore
