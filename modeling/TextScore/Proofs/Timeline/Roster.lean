import TextScore.Proofs.Ensemble.Declared
import TextScore.Proofs.Score.Undeclared

/-!
# Who plays in a timeline

An id that is met on a staff line for the first time and has no declaration becomes an instrument at
the end of the ensemble, and is reported; nothing else changes the instruments while a score is
played.  So the new instruments are the reported ones, in the order of their first use.

## What is here

* `Block.ids` — the ids on the staff lines of a block.
* `Assembly.Enrols` — what the playing of some ids does to the instruments.
* `Timeline.enrols_ofBlocks` — the same for all blocks.

`Enrols` speaks of the instruments and of the reports at once, since neither determines the other
without it: the keys behind a run are the ids met so far without repetition, and those among them
that are new are the ones complained about.  It is closed under composition, with the reports
appended, and that carries it from a turn to a line, a block and a score.
-/

set_option autoImplicit false

namespace TextScore

/-- The ids on a staff line, in order. -/
def lineIds (l : Nat × List Char) : List String :=
  (Assignment.read? l.2).elim [] fun s ↦ s.ids.map String.ofList

/-- The ids on the staff lines of a block, in order. -/
def Block.ids (b : Block) : List String := b.lines.flatMap lineIds

/-! ## The ensemble

Only the keys and the groups are looked at; what the staves remember changes all the time and does
not matter. -/

namespace Ensemble

theorem resolve_flag (e : Ensemble) (id : String) :
    (e.resolve id).2.2 = decide (id ∉ e.instruments.keys) := by
  have hmem := e.instruments.isSome_get?_iff id
  rw [resolve]
  cases h : e.instruments.get? id with
  | some i =>
    rw [h, Option.isSome_some] at hmem
    exact (decide_eq_false fun hn ↦ hn (hmem.mp rfl)).symm
  | none =>
    rw [h, Option.isSome_none] at hmem
    have hnew : id ∉ e.instruments.keys := fun hk ↦ Bool.false_ne_true (hmem.mpr hk)
    exact (decide_eq_true hnew).symm

/-- Whoever plays for the first time joins at the end. -/
theorem keys_afterTurn (e : Ensemble) (id : String) (st : Staff) :
    (e.afterTurn id st).instruments.keys =
      if id ∈ e.instruments.keys then e.instruments.keys else e.instruments.keys ++ [id] := by
  have hmem := e.instruments.isSome_get?_iff id
  show (e.enrol id).instruments.keys = _
  rw [enrol, resolve]
  cases h : e.instruments.get? id with
  | some i =>
    rw [h, Option.isSome_some] at hmem
    rw [if_pos (hmem.mp rfl)]
  | none => exact OrderedMap.keys_put _ _ _

theorem groups_afterTurn (e : Ensemble) (id : String) (st : Staff) :
    (e.afterTurn id st).groups = e.groups := by
  show (e.enrol id).groups = _
  rw [enrol, resolve]
  cases e.instruments.get? id <;> rfl

end Ensemble

/-! ## Playing

A turn reports more than an unknown instrument, such as unknown durations.  Those reports speak of
no instrument, and filtering for the ones that do leaves at most one for a turn. -/

namespace Assembly

/-- Between two states of the assembly some ids have played, and some problems have been
reported. -/
structure Enrols (ids : List String) (a a' : Assembly) (rs : List (Nat × Problem)) : Prop where
  /-- The new ids stand behind those known before, each once. -/
  keys : ∀ past, a.ensemble.instruments.keys = past.eraseDups →
    a'.ensemble.instruments.keys = (past ++ ids).eraseDups
  /-- They are those reported as undeclared. -/
  reported : a'.ensemble.instruments.keys =
    a.ensemble.instruments.keys ++ Journal.undeclared rs
  /-- The groups are the same. -/
  groups : a'.ensemble.groups = a.ensemble.groups
  /-- So are the instruments. -/
  player : ∀ k, a'.ensemble.player k = a.ensemble.player k
  /-- The new notes bear the ids and the names of those who play. -/
  events : ∀ n ∈ a'.events, n ∈ a.events ∨ n.instrumentId ∈ ids ∧
    n.instrumentName = (a.ensemble.player n.instrumentId).displayName

namespace Enrols

variable {ids ids' : List String} {a a' a'' : Assembly} {rs rs' : List (Nat × Problem)}

theorem refl (h : Journal.undeclared rs = []) : Enrols [] a a rs where
  keys := by
    intro past h
    rw [List.append_nil, h]
  reported := by rw [h, List.append_nil]
  groups := rfl
  player := fun _ ↦ rfl
  events := fun _ hn ↦ .inl hn

theorem trans (h : Enrols ids a a' rs) (h' : Enrols ids' a' a'' rs') :
    Enrols (ids ++ ids') a a'' (rs ++ rs') where
  keys := by
    intro past hpast
    rw [← List.append_assoc]
    exact h'.keys _ (h.keys past hpast)
  reported := by
    rw [h'.reported, h.reported, Journal.undeclared_append, List.append_assoc]
  groups := h'.groups.trans h.groups
  player := fun k ↦ (h'.player k).trans (h.player k)
  events := by
    intro n hn
    rcases h'.events n hn with hn | ⟨hid, hname⟩
    · rcases h.events n hn with hn | ⟨hid, hname⟩
      · exact .inl hn
      · exact .inr ⟨List.mem_append_left _ hid, hname⟩
    · rw [h.player] at hname
      exact .inr ⟨List.mem_append_right _ hid, hname⟩

/-- Reports that speak of no undeclared instrument do not matter. -/
theorem congr (h : Enrols ids a a' rs) (hrs : Journal.undeclared rs' = Journal.undeclared rs) :
    Enrols ids a a' rs' :=
  ⟨h.keys, by rw [hrs, h.reported], h.groups, h.player, h.events⟩

end Enrols

variable {macros : Macro.Table} {b : Block} {start : Float} {a a' : Assembly}

theorem quiet_turn (line : Nat) (b : Block) (start : Float) (ts : List Token) (a : Assembly)
    (id : String) : (turn line b start ts a id).Quiet := by
  refine .bind (.ofExcept _) fun m ↦ .bind ?_ fun _ ↦ .pure _
  have htokens (p : Playing) :
      Noted.Quiet (ts.foldlM (Playing.step m (a.ensemble.player id)) p) :=
    .foldlM (Playing.quiet_step m _) ts p
  exact (htokens _).atLine line

theorem undeclared_playStaff (line : Nat) (b : Block) (start : Float) (ts : List Token)
    (a : Assembly) (id : String) :
    Journal.undeclared (playStaff line b start ts a id).reports =
      if id ∈ a.ensemble.instruments.keys then [] else [id] := by
  have hturn := (quiet_turn line b start ts a id).undeclared
  rw [playStaff_eq, a.ensemble.resolve_flag]
  by_cases hid : id ∈ a.ensemble.instruments.keys
  · rw [if_pos hid, if_neg (by simpa using hid), hturn]
  · have hreport : (report line (.undeclaredInstrument id)).value = .ok () := rfl
    rw [if_neg hid, if_pos (decide_eq_true hid),
      Pass.reports_bind (fun _ ↦ appends_turn line b start ts a id) hreport,
      Journal.undeclared_append, hturn]
    rfl

/-- In its turn an instrument plays. -/
theorem enrols_playStaff {line : Nat} {ts : List Token} {id : String}
    (h : (playStaff line b start ts a id).value = .ok a') :
    Enrols [id] a a' (playStaff line b start ts a id).reports := by
  have hreports := undeclared_playStaff line b start ts a id
  rw [playStaff_value] at h
  obtain ⟨m, -, h⟩ := bind_eq_ok h
  obtain ⟨p, hp, h⟩ := bind_eq_ok h
  cases h
  obtain ⟨r, -, rfl, hsigned⟩ := Playing.play_new hp
  -- the ids in order, the report of a new one, the groups, the players, the notes
  refine ⟨?_, ?_, Ensemble.groups_afterTurn _ _ _, Ensemble.player_afterTurn _ _ _, ?_⟩
  · intro past hpast
    show (a.ensemble.afterTurn id _).instruments.keys = _
    rw [Ensemble.keys_afterTurn, eraseDups_concat, hpast]
    simp only [List.mem_eraseDups]
  · show (a.ensemble.afterTurn id _).instruments.keys = _
    rw [Ensemble.keys_afterTurn, hreports]
    split
    · rw [List.append_nil]
    · rfl
  · intro n hn
    rcases Array.mem_append.mp hn with hn | hn
    · exact .inl hn
    · obtain ⟨hid, hname⟩ := hsigned n hn
      rw [a.ensemble.id_player] at hid
      refine .inr ⟨by rw [hid]; exact List.mem_singleton_self id, ?_⟩
      rw [hname, hid]

/-- On a staff line its ids play. -/
theorem enrols_playLine {l : Nat × List Char} (h : (playLine macros b start a l).value = .ok a') :
    Enrols (lineIds l) a a' (playLine macros b start a l).reports := by
  rw [playLine] at h ⊢
  rw [lineIds]
  cases hl : Assignment.read? l.2 with
  | none =>
    rw [hl] at h
    cases h
    exact .refl rfl
  | some s =>
    rw [hl] at h
    dsimp only at h ⊢
    have happends (ts : List Token) := Noted.Appends.foldlM (appends_playStaff l.1 b start ts)
      (s.ids.map String.ofList) a
    rw [Noted.value_bind happends] at h
    obtain ⟨ts, hts, h⟩ := bind_eq_ok h
    have hturns := Pass.foldlM_invariant (P := fun past a' rs ↦ Enrols past a a' rs)
      (appends_playStaff l.1 b start ts)
      (fun _ _ _ _ _ hpast hk ↦ hpast.trans (enrols_playStaff hk)) (.refl rfl) h
    rw [Pass.reports_bind happends hts, Option.elim_some]
    refine hturns.congr ?_
    rw [Journal.undeclared_append, (quiet_tokens macros l.1 s.content).undeclared, List.nil_append]

/-- In a block the ids on its lines play. -/
theorem enrols_playBlock (h : (playBlock macros a b start).value = .ok a') :
    Enrols b.ids { a with positions := ∅ } a' (playBlock macros a b start).reports := by
  refine Pass.foldlM_invariant
    (P := fun past a' rs ↦ Enrols (past.flatMap lineIds) { a with positions := ∅ } a' rs)
    (appends_playLine macros b start) ?_ (.refl rfl) h
  intro past a₁ l a₂ rs hpast hl
  rw [List.flatMap_append, List.flatMap_singleton]
  exact hpast.trans (enrols_playLine hl)

end Assembly

namespace Timeline

variable {macros : Macro.Table}

theorem enrols_addBlock {t t' : Timeline} {b : Block}
    (h : (addBlock macros t b).value = .ok t') :
    Assembly.Enrols b.ids t.assembly t'.assembly (addBlock macros t b).reports := by
  rw [addBlock_value] at h
  obtain ⟨a, ha, h⟩ := bind_eq_ok h
  obtain ⟨beats, hbeats, h⟩ := bind_eq_ok h
  obtain ⟨beat, hbeat, h⟩ := bind_eq_ok h
  cases h
  have hblock := Assembly.enrols_playBlock ha
  have hsame : Assembly.Enrols b.ids t.assembly a
      (t.assembly.playBlock macros b t.secondsOffset).reports :=
    ⟨hblock.keys, hblock.reported, hblock.groups, hblock.player, hblock.events⟩
  refine hsame.congr ?_
  rw [addBlock, Pass.reports_bind (fun _ ↦ .bind (.ofExcept _) fun _ ↦ .bind (.ofExcept _) fun _ ↦
    .bind (.note _) fun _ ↦ .pure _) ha, hbeats, hbeat, Journal.undeclared_append]
  exact List.append_nil _

/-- In a timeline the ids on the lines of all blocks play. -/
theorem enrols_ofBlocks {e : Ensemble} {bs : List Block} {t : Timeline}
    (h : (ofBlocks macros e bs).value = .ok t) :
    Assembly.Enrols (bs.flatMap Block.ids) { ensemble := e } t.assembly
      (ofBlocks macros e bs).reports := by
  refine Pass.foldlM_invariant
    (P := fun past (t : Timeline) rs ↦
      Assembly.Enrols (past.flatMap Block.ids) { ensemble := e } t.assembly rs)
    (appends_addBlock macros) ?_ (.refl rfl) h
  intro past t b t' rs hpast hb
  rw [List.flatMap_append, List.flatMap_singleton]
  exact hpast.trans (enrols_addBlock hb)

end Timeline

end TextScore
