import TextScore.Proofs.Timeline.History

/-!
# The order of emission

The notes of a score are emitted block by block, staff line by staff line, for one id of a line
after the other, token by token, and the notes of a chord in order.  Which note is emitted at a
place of this order follows from what the score says to its own instrument before that place.

`TextScore.Proofs.Timeline.History` has the notes of one instrument in their order.  For sorting
that is not enough: notes that start together keep the order in which they were emitted, whoever
plays them, so the order between instruments matters.  Here all notes stand in one list, defined
from the text alone, and the timeline is that list.

## What is here

* `Block.turns` — the turns of the instruments in a block, in order.
* `emission` — the notes that a score asks for, in the order of emission.
* `Assembly.advances_playStaff` — what one turn emits.
* `Timeline.emits_ofBlocks` — the timeline holds just these notes, in this order.
-/

set_option autoImplicit false

namespace TextScore

open Text Number

/-! ## Turns

A block is a list of turns, and in a turn an instrument plays the tokens of a line.  Lines and ids
of a line are no different here, both are just turns behind one another. -/

/-- The turn of an instrument: it plays the tokens of a staff line. -/
structure Turn where
  /-- The id of the instrument. -/
  id : String
  /-- What it plays. -/
  tokens : List Token

/-- The turns of a staff line, one for each id that it names. -/
def lineTurns (macros : Macro.Table) (l : Nat × List Char) : List Turn :=
  match Assignment.read? l.2 with
  | none => []
  | some s => (s.ids.map String.ofList).map fun id ↦
      ⟨id, (contentTokens macros s.content).toOption.getD []⟩

/-- The turns of a block: those of its lines, in order. -/
def Block.turns (macros : Macro.Table) (b : Block) : List Turn := b.lines.flatMap (lineTurns macros)

/-- What one instrument plays in some turns. -/
def tokensOf (id : String) (us : List Turn) : List Token :=
  us.flatMap fun u ↦ if u.id = id then u.tokens else []

/-! ## What is asked for

What an instrument is asked for in a turn depends on its own turns before, in this block and in the
earlier ones; the turns of others are filtered out. -/

/-- A note that is asked of an instrument. -/
structure Cue where
  /-- The id of the instrument. -/
  id : String
  /-- The note, as it is written. -/
  note : Wanted

/-- The note is what the instrument makes of the cue. -/
structure Cue.Sounds (e : Ensemble) (c : Cue) (n : NoteEvent) : Prop where
  /-- It bears the id of the instrument. -/
  id : n.instrumentId = c.id
  /-- It bears the name of the instrument. -/
  name : n.instrumentName = (e.player c.id).displayName
  /-- It sounds as it is written for the instrument. -/
  note : c.note.Sounds (e.player c.id) n

/-- The notes of a turn, behind other turns of the block; `before` is what the instruments were to
play in earlier blocks. -/
def Turn.cues (e : Ensemble) (m : Meter) (before : String → List Token) (past : List Turn)
    (u : Turn) : List Cue :=
  ((e.memory u.id).notesBehind m (before u.id) (tokensOf u.id past) u.tokens).map (.mk u.id)

/-- The notes of some turns, behind others. -/
def cuesBehind (e : Ensemble) (m : Meter) (before : String → List Token) (past us : List Turn) :
    List Cue :=
  (withPast past us).flatMap fun x ↦ x.2.cues e m before x.1

/-- The notes that a block asks for behind some blocks, in the order of emission. -/
def Block.emission (macros : Macro.Table) (e : Ensemble) (earlier : List Block) (b : Block) :
    List Cue :=
  cuesBehind e (b.timing (startAfter earlier)) (fun id ↦ earlier.flatMap (Block.part macros id)) []
    (b.turns macros)

/-- The notes that a score asks for, in the order of emission. -/
def emission (macros : Macro.Table) (e : Ensemble) (bs : List Block) : List Cue :=
  collectBehind (Block.emission macros e) bs

section

variable {e : Ensemble} {m : Meter} {before : String → List Token}

theorem tokensOf_append (id : String) (us vs : List Turn) :
    tokensOf id (us ++ vs) = tokensOf id us ++ tokensOf id vs :=
  List.flatMap_append

theorem tokensOf_singleton (id : String) (u : Turn) :
    tokensOf id [u] = if u.id = id then u.tokens else [] :=
  List.flatMap_singleton _ u

theorem cuesBehind_append (past us vs : List Turn) :
    cuesBehind e m before past (us ++ vs) =
      cuesBehind e m before past us ++ cuesBehind e m before (past ++ us) vs := by
  rw [cuesBehind, withPast_append, List.flatMap_append, cuesBehind, cuesBehind]

theorem cuesBehind_singleton (past : List Turn) (u : Turn) :
    cuesBehind e m before past [u] = u.cues e m before past :=
  List.flatMap_singleton _ (past, u)

end

/-! ## Turns that are played

All staves are followed at once: behind some turns every staff stands where its history puts it. -/

namespace Assembly

/-- Behind some turns of a block every staff stands where its history puts it. -/
structure Stands (e : Ensemble) (m : Meter) (start : Float) (before : String → List Token)
    (past : List Turn) (a : Assembly) : Prop where
  /-- The instruments are the same as before the score. -/
  player : ∀ k, a.ensemble.player k = e.player k
  /-- The staves. -/
  voice : ∀ k, Playing.Stands (e.memory k) m (before k) (tokensOf k past) (a.voice start k)

/-- Between two states some notes were emitted. -/
def Emitted (e : Ensemble) (cs : List Cue) (a a' : Assembly) : Prop :=
  ∃ ns, a'.events.toList = a.events.toList ++ ns ∧ List.Forall₂ (Cue.Sounds e) cs ns

/-- Between two states some turns of a block were played: behind whatever turns, they emit the notes
that they ask for. -/
def Advances (e : Ensemble) (m : Meter) (start : Float) (before : String → List Token)
    (us : List Turn) (a a' : Assembly) : Prop :=
  ∀ past, Stands e m start before past a →
    Stands e m start before (past ++ us) a' ∧ Emitted e (cuesBehind e m before past us) a a'

variable {e : Ensemble} {m : Meter} {start : Float} {before : String → List Token}
  {macros : Macro.Table} {b : Block}

namespace Advances

variable {us vs : List Turn} {a a' a'' : Assembly}

theorem refl : Advances e m start before [] a a := fun past h ↦
  ⟨by rwa [List.append_nil], [], by rw [List.append_nil], .nil⟩

theorem trans (h : Advances e m start before us a a')
    (h' : Advances e m start before vs a' a'') : Advances e m start before (us ++ vs) a a'' := by
  intro past hs
  obtain ⟨hs', ms, hms, hsounds⟩ := h past hs
  obtain ⟨hs'', ns, hns, hsounds'⟩ := h' _ hs'
  refine ⟨by rwa [← List.append_assoc], ms ++ ns, by rw [hns, hms, List.append_assoc], ?_⟩
  rw [cuesBehind_append]
  exact List.rel_append hsounds hsounds'

/-- The turns of some items are played one after the other. -/
theorem foldlM {α : Type} {f : Assembly → α → Except Fault Assembly} {turns : α → List Turn}
    (hstep : ∀ a x a', f a x = .ok a' → Advances e m start before (turns x) a a') {xs : List α}
    (h : xs.foldlM f a = .ok a') : Advances e m start before (xs.flatMap turns) a a' := by
  refine foldlM_invariant
    (P := fun past s ↦ Advances e m start before (past.flatMap turns) a s) ?_ .refl h
  intro past s x s' hs hx
  rw [List.flatMap_append, List.flatMap_singleton]
  exact hs.trans (hstep s x s' hx)

end Advances

/-- One turn: the instrument emits the notes of its tokens, and all others stay where they are. -/
theorem advances_playStaff (hm : b.meter start = .ok m) {line : Nat} {ts : List Token}
    {a a' : Assembly} {id : String} (h : (playStaff line b start ts a id).value = .ok a') :
    Advances e m start before [⟨id, ts⟩] a a' := by
  intro past hs
  have hplays (k : String) := plays_playStaff hm h k
  refine ⟨⟨fun k ↦ (hplays k).player.trans (hs.player k), fun k ↦ ?_⟩, ?_⟩
  · rw [tokensOf_append, tokensOf_singleton]
    exact ((hs.voice k).play (hplays k).voice).1
  · rw [playStaff_value, hm, ok_bind] at h
    obtain ⟨p, hp, h⟩ := bind_eq_ok h
    obtain rfl := Except.ok.inj h
    rw [hs.player id] at hp
    -- The notes of the others do not matter to where the staff stands.
    have hstaff : Playing.Stands (e.memory id) m (before id) (tokensOf id past)
        ⟨a.ensemble.memory id, a.position start id, a.events⟩ :=
      ⟨(hs.voice id).staff, (hs.voice id).barlines, (hs.voice id).clock⟩
    obtain ⟨-, ns, hevents, hsounds⟩ := hstaff.play hp
    obtain ⟨r, -, rfl, hsigned⟩ := Playing.play_new hp
    have hnew : r.events.toList = ns := by
      rw [Playing.behind, Array.toList_append] at hevents
      exact List.append_cancel_left hevents
    refine ⟨ns, hevents, ?_⟩
    rw [cuesBehind_singleton, Turn.cues, List.forall₂_map_left_iff]
    have hboth :=
      (List.forall₂_and_left (R := fun n (w : Wanted) ↦ w.Sounds (e.player id) n) _ _).mpr
      ⟨fun n hn ↦ hsigned n (Array.mem_toList_iff.mp (hnew ▸ hn)), hsounds.flip⟩
    exact hboth.flip.imp fun w n hn ↦ ⟨hn.1.1.trans (e.id_player id), hn.1.2, hn.2⟩

/-- A staff line: one turn for each id. -/
theorem advances_playLine (hm : b.meter start = .ok m) {a a' : Assembly} {l : Nat × List Char}
    (h : (playLine macros b start a l).value = .ok a') :
    Advances e m start before (lineTurns macros l) a a' := by
  rw [playLine] at h
  rw [lineTurns]
  cases hl : Assignment.read? l.2 with
  | none =>
    rw [hl] at h
    cases h
    exact .refl
  | some s =>
    rw [hl] at h
    dsimp only at h ⊢
    rw [Noted.value_bind fun ts ↦ .foldlM (appends_playStaff l.1 b start ts) _ _, tokens_value] at h
    obtain ⟨ts, hts, h⟩ := bind_eq_ok h
    rw [Noted.value_foldlM (appends_playStaff l.1 b start ts)] at h
    rw [hts, List.map_eq_flatMap]
    exact .foldlM (fun _ _ _ h ↦ advances_playStaff hm h) h

/-- A block: the turns of its lines, from the start of the block. -/
theorem advances_playBlock (hm : b.meter start = .ok m) {a a' : Assembly}
    (h : (playBlock macros a b start).value = .ok a') :
    Advances e m start before (b.turns macros) { a with positions := ∅ } a' := by
  rw [playBlock, Noted.value_foldlM (appends_playLine macros b start)] at h
  exact .foldlM (fun _ _ _ h ↦ advances_playLine hm h) h

end Assembly

namespace Timeline

/-- **Emission.**  Every timeline holds the notes that the score asks for, in the order of emission:
blocks, staff lines, the ids of a line, tokens, and the notes of a chord. -/
theorem emits_ofBlocks {macros : Macro.Table} {e : Ensemble} {bs : List Block} {t : Timeline}
    (h : (ofBlocks macros e bs).value = .ok t) :
    List.Forall₂ (Cue.Sounds e) (emission macros e bs) t.assembly.events.toList := by
  rw [ofBlocks_value] at h
  -- carried along with what is known of each instrument, which fixes the clock of the next block
  refine (foldlM_invariant (P := fun bs t ↦ (∀ k, Holds macros e k bs t) ∧
    List.Forall₂ (Cue.Sounds e) (emission macros e bs) t.assembly.events.toList) ?_
    ⟨holds_nil macros e, .nil⟩ h).2
  rintro bs t b t' ⟨hholds, hsounds⟩ ht
  refine ⟨fun k ↦ (hholds k).addBlock ht, ?_⟩
  obtain ⟨m, seconds, hm, hseconds, -⟩ := addBlock_ok ht
  rw [(Block.seconds_ok hseconds).2] at hm
  obtain rfl := Except.ok.inj hm
  rw [addBlock_value] at ht
  obtain ⟨a, ha, ht⟩ := bind_eq_ok ht
  obtain ⟨beats, -, ht⟩ := bind_eq_ok ht
  obtain ⟨beat, -, ht⟩ := bind_eq_ok ht
  obtain rfl := Except.ok.inj ht
  have hstands : Assembly.Stands e (b.timing (startAfter bs)) t.secondsOffset
      (fun id ↦ bs.flatMap (Block.part macros id)) [] { t.assembly with positions := ∅ } :=
    ⟨fun k ↦ (hholds k).player, fun k ↦ (hholds k).stands⟩
  rw [← (hholds "").start] at hstands
  obtain ⟨-, ns, hns, hnew⟩ := Assembly.advances_playBlock
    ((Block.seconds_ok hseconds).2 _) ha [] hstands
  have hevents : a.events.toList = t.assembly.events.toList ++ ns := hns
  rw [hevents, emission, collectBehind_concat, Block.emission, ← (hholds "").start]
  exact List.rel_append hsounds hnew

end Timeline

end TextScore
