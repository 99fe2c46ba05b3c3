import TextScore.Proofs.Measure.Segment
import TextScore.Proofs.Repeat.Pass
import TextScore.Proofs.Timeline.Roster
import TextScore.Proofs.Timeline.Transposition

/-!
# How a timeline fails

Two things stop a timeline whose blocks are positive: a whole number with too many digits to be read
or written, and a number of a block that is too large for a double.  Nothing else does: whoever is
named on a staff line has a staff, and nothing is divided by zero.

The causes are traced back to the text.  A count that is too long is the count of a repeat group, if
not of one that was written then of one that a pass has made; an octave that is too long is one that
can be in force on the staff, and is too long as it is written, as it is reported, or as it sounds.

## What is here

* `Repeat.ends_expand` — repeats fail at a count that is too long.
* `Staff.Unnameable`, `Playing.ends_play` — a staff fails at an octave that is too long.
* `Timeline.Overlong`, `Timeline.ends_ofBlocks` — a timeline fails as one of its staff lines does,
  or at a block that is too large.
-/

set_option autoImplicit false

namespace TextScore

open Text Number

/-! ## Repeats -/

namespace Repeat

theorem Group.ends_check (g : Group) :
    Ends (fun _ ↦ True) (fun f ↦ f = .numeralTooLong ∧ maxDigits < g.count.length)
      g.check.value := by
  by_cases h : g.count.length ≤ maxDigits
  · rw [Group.check_value h]
    exact .ok trivial
  · rw [check, Noted.value_bind fun n ↦ by
      split
      · exact .note _
      · exact .pure _, Noted.value_ofExcept, readNat, if_pos (Nat.not_le.mp h)]
    exact .error ⟨rfl, Nat.not_le.mp h⟩

theorem ends_forM_check (gs : List Group) :
    Ends (fun _ ↦ True) (fun f ↦ f = .numeralTooLong ∧ ∃ g ∈ gs, maxDigits < g.count.length)
      (gs.forM Group.check).value := by
  induction gs with
  | nil => exact .ok trivial
  | cons g gs ih =>
    show Ends _ _ (g.check >>= fun _ ↦ gs.forM Group.check).value
    rw [Noted.value_bind fun _ ↦ appends_forM_check gs]
    refine (g.ends_check.mono (fun _ h ↦ h) fun f h ↦
      ⟨h.1, g, List.mem_cons_self, h.2⟩).bind fun _ _ ↦ ?_
    refine ih.mono (fun _ h ↦ h) ?_
    rintro f ⟨rfl, g', hg', h⟩
    exact ⟨rfl, g', List.mem_cons_of_mem g hg', h⟩

/-- Expanding fails only at a count that is too long, in the text or in what a pass made of it. -/
theorem ends_expand (s : List Char) :
    Ends (fun _ ↦ True)
      (fun f ↦ f = .numeralTooLong ∧ ∃ i, ∃ g ∈ innermost (pass^[i] s), maxDigits < g.count.length)
      (expand s).value := by
  induction hn : openings s using Nat.strongRecOn generalizing s with
  | ind n ih =>
    by_cases hs : innermost s = []
    · rw [expand_of_innermost_eq_nil hs]
      exact .ok trivial
    · have hopenings := openings_pass s
      have hpos := List.length_pos_iff.mpr hs
      rw [expand_of_innermost_ne_nil hs, Noted.value_bind fun _ ↦ appends_expand _]
      refine ((ends_forM_check (innermost s)).mono (fun _ h ↦ h) fun f h ↦
        ⟨h.1, 0, h.2⟩).bind fun _ _ ↦ ?_
      refine (ih (openings (pass s)) (by omega) (pass s) rfl).mono (fun _ h ↦ h) ?_
      rintro f ⟨rfl, i, h⟩
      exact ⟨rfl, i + 1, h⟩

end Repeat

/-! ## One staff

The octave in force is one that was written, or the one the staff began with.  It does not matter
which: to name the cause of a failure it is enough that it can be in force, and so the invariant is
a set of octaves and not a history. -/

namespace Staff

/-- An octave that can be in force on a staff: the one it starts with, or one that is written on one
of its notes. -/
inductive Octave (start : Int) (texts : List String) : Int → Prop
  /-- The octave at the start. -/
  | start : Octave start texts start
  /-- An octave that is written on a note. -/
  | written {text : String} {octave : Int} (htext : text ∈ texts)
      (h : writtenOctave? text = some octave) : Octave start texts octave

/-- Among the notes of an instrument there is one whose octave has too many digits to be read or
written. -/
inductive Unnameable (start : Int) (texts : List String) (semitones : Int) : Prop
  /-- The numeral of an octave is too long to be read. -/
  | numeral {text : String} {p : Pitch.Spelling} {ds : List Char} (htext : text ∈ texts)
      (hp : Pitch.Spelling.read? (Pitch.stripArticulation text.toList) = some p)
      (hds : p.octave? = some ds) (hlong : maxDigits < (dropSign ds).2.length)
  /-- A text without a pitch letter is reported with the octave in force. -/
  | unrecognised {text : String} {octave : Int} (htext : text ∈ texts)
      (hp : Pitch.Spelling.read? (Pitch.stripArticulation text.toList) = none)
      (hoctave : Octave start texts octave) (hlong : isWritable octave = false)
  /-- A note sounds in an octave that is too long for its name. -/
  | name {text : String} {octave : Int} (htext : text ∈ texts)
      (hoctave : Octave start texts octave)
      (hlong : isWritable ((pitchIn octave text).transpose semitones).octave = false)

variable {start semitones : Int} {texts : List String}

theorem Octave.octaveAt {st : Staff} (h : Octave start texts st.lastOctave) {more : List String}
    (hmore : ∀ text ∈ more, text ∈ texts) : Octave start texts (st.octaveAt more) :=
  getD_getLast?_filterMap h fun _ htext _ hoctave ↦ .written (hmore _ htext) hoctave

theorem ends_takePitch {st : Staff} (hst : Octave start texts st.lastOctave) {text : String}
    (htext : text ∈ texts) :
    Ends (fun q : Staff × Pitch ↦ Octave start texts q.1.lastOctave ∧
        ∃ octave, Octave start texts octave ∧ q.2 = pitchIn octave text)
      (fun f ↦ f = .numeralTooLong ∧ Unnameable start texts semitones) (st.takePitch text) := by
  constructor
  · rintro ⟨st', pitch⟩ h
    obtain ⟨rfl, hpitch⟩ := takePitch_ok h
    rw [pitchAt, List.nil_append] at hpitch
    have hoctave : Octave start texts (st.octaveAt [text]) :=
      hst.octaveAt fun t ht ↦ List.mem_singleton.mp ht ▸ htext
    exact ⟨hoctave, st.octaveAt [text], hoctave, hpitch⟩
  · intro f h
    rw [takePitch, resolvePitch] at h
    -- the name has to be writable, or the written octave has to be readable; nothing else can fail
    cases hp : Pitch.Spelling.read? (Pitch.stripArticulation text.toList) with
    | none =>
      rw [hp] at h
      simp only [ok_bind] at h
      split at h
      case isTrue => cases h
      case isFalse hlong =>
        obtain rfl := Except.error.inj h
        exact ⟨rfl, .unrecognised htext hp hst (Bool.eq_false_of_not_eq_true hlong)⟩
    | some p =>
      rw [hp] at h
      cases hds : p.octave? with
      | none =>
        simp only [hds, ok_bind] at h
        cases h
      | some ds =>
        simp only [hds] at h
        rcases bind_eq_error h with h | ⟨q, hq, h⟩
        · rcases bind_eq_error h with h | ⟨octave, -, h⟩
          · obtain ⟨rfl, hlong⟩ := readInt_eq_error h
            exact ⟨rfl, .numeral htext hp hds hlong⟩
          · cases h
        · obtain ⟨octave, -, hq⟩ := bind_eq_ok hq
          obtain rfl := Except.ok.inj hq
          cases h

end Staff

namespace Playing

open Staff

variable {start : Int} {texts : List String} {i : Instrument}

theorem ends_emit (duration : Float) {p : Playing} (hp : Octave start texts p.staff.lastOctave)
    {text : String} (htext : text ∈ texts) :
    Ends (fun q : Playing ↦ Octave start texts q.staff.lastOctave)
      (fun f ↦ f = .numeralTooLong ∧ Unnameable start texts i.transpose)
      (emit i duration p text).value := by
  rw [emit_value]
  refine (ends_takePitch hp htext).bind ?_
  rintro ⟨st, pitch⟩ ⟨hst, octave, hoctave, rfl⟩
  dsimp only
  by_cases hname : isWritable ((pitchIn octave text).transpose i.transpose).octave = true
  · rw [Pitch.name_of_isWritable hname, ok_bind]
    exact .ok hst
  · rw [Pitch.name, writeInt, if_neg hname]
    exact .error ⟨rfl, .name htext hoctave (Bool.eq_false_of_not_eq_true hname)⟩

theorem ends_step (m : Meter) {p : Playing} (hp : Octave start texts p.staff.lastOctave)
    {t : Token} (ht : ∀ text ∈ t.pitchTexts, text ∈ texts) :
    Ends (fun q : Playing ↦ Octave start texts q.staff.lastOctave)
      (fun f ↦ f = .numeralTooLong ∧ Unnameable start texts i.transpose) (step m i p t).value := by
  cases hs : t.sound? with
  | some s =>
    rw [Token.pitchTexts, hs] at ht
    have hremember : Octave start texts (p.remember s.code?).staff.lastOctave := by
      rw [remember, lastOctave_rememberDuration]
      exact hp
    rw [step_value_of_sound hs, emitAll]
    exact (Ends.foldlM (P := fun q ↦ Octave start texts q.staff.lastOctave) hremember
      fun q text htext hq ↦ ends_emit _ hq (ht text htext)).map fun _ h ↦ h
  | none =>
    rw [step_value_of_silent hs]
    refine .ok ?_
    cases t <;> exact hp

/-- A staff fails only at an octave that is too long. -/
theorem ends_play (m : Meter) {p : Playing} (hp : Octave start texts p.staff.lastOctave)
    {ts : List Token} (hts : ∀ t ∈ ts, ∀ text ∈ t.pitchTexts, text ∈ texts) :
    Ends (fun q : Playing ↦ Octave start texts q.staff.lastOctave)
      (fun f ↦ f = .numeralTooLong ∧ Unnameable start texts i.transpose) (play m i p ts) :=
  .foldlM hp fun _ t ht hq ↦ ends_step m hq (hts t ht)

end Playing

/-! ## All staves

The state of the induction is an ensemble in which every id stands for the same instrument as before
and every staff has an octave that can be in force. -/

/-- The texts of the notes that some blocks give an instrument. -/
def Block.pitchTexts (macros : Macro.Table) (bs : List Block) (id : String) : List String :=
  (bs.flatMap (part macros id)).flatMap Token.pitchTexts

theorem Block.mem_pitchTexts {macros : Macro.Table} {bs : List Block} {b : Block} (hb : b ∈ bs)
    {l : Nat × List Char} (hl : l ∈ b.lines) {s : Assignment}
    (hs : Assignment.read? l.2 = some s) {ts : List Token}
    (hts : contentTokens macros s.content = .ok ts) {id : String}
    (hid : id ∈ s.ids.map String.ofList) {t : Token} (ht : t ∈ ts) :
    ∀ text ∈ t.pitchTexts, text ∈ pitchTexts macros bs id := by
  have hline : t ∈ linePart macros id l := by
    rw [linePart, hs]
    refine List.mem_flatMap.mpr ⟨id, hid, ?_⟩
    rw [if_pos rfl, hts]
    exact ht
  intro text htext
  exact List.mem_flatMap.mpr
    ⟨t, List.mem_flatMap.mpr ⟨b, hb, List.mem_flatMap.mpr ⟨l, hl, hline⟩⟩, htext⟩

/-- While some notes are played every id stands for the instrument it stood for before, and its
staff has an octave that can be in force. -/
structure Ensemble.Voiced (e : Ensemble) (texts : String → List String) (e' : Ensemble) : Prop where
  /-- The instruments are the same. -/
  player : ∀ k, e'.player k = e.player k
  /-- The octaves can be in force. -/
  octave : ∀ k, Staff.Octave (e.memory k).lastOctave (texts k) (e'.memory k).lastOctave

namespace Ensemble.Voiced

variable {e e' : Ensemble} {texts : String → List String}

theorem refl (e : Ensemble) (texts : String → List String) : Voiced e texts e :=
  ⟨fun _ ↦ rfl, fun _ ↦ .start⟩

theorem afterTurn (h : Voiced e texts e') {id : String} {st : Staff}
    (hst : Staff.Octave (e.memory id).lastOctave (texts id) st.lastOctave) :
    Voiced e texts (e'.afterTurn id st) where
  player := fun k ↦ (e'.player_afterTurn id st k).trans (h.player k)
  octave := fun k ↦ by
    by_cases hk : k = id
    · rwa [hk, memory_afterTurn_self]
    · rw [memory_afterTurn_of_ne _ hk]
      exact h.octave k

end Ensemble.Voiced

/-- Among the staff lines of some blocks there is a whole number with too many digits to be read or
written: the count of a repeat, or an octave. -/
inductive Timeline.Overlong (macros : Macro.Table) (e : Ensemble) (bs : List Block) : Prop
  /-- The count of a repeat. -/
  | count {b : Block} {l : Nat × List Char} {s : Assignment} {i : Nat} {g : Repeat.Group}
      (hb : b ∈ bs) (hl : l ∈ b.lines) (hs : Assignment.read? l.2 = some s)
      (hg : g ∈ Repeat.innermost (Repeat.pass^[i] (macros.expand s.content).1))
      (hlong : maxDigits < g.count.length)
  /-- An octave. -/
  | octave {id : String} (h : Staff.Unnameable (e.memory id).lastOctave
      (Block.pitchTexts macros bs id) (e.player id).transpose)

/-- The ways in which a timeline fails. -/
inductive Timeline.Fails (macros : Macro.Table) (e : Ensemble) (bs : List Block) : Fault → Prop
  /-- A whole number has too many digits. -/
  | numeralTooLong (h : Overlong macros e bs) : Fails macros e bs .numeralTooLong
  /-- A number of a block is too large for a double. -/
  | integerTooLarge {b : Block} (hb : b ∈ bs) (h : b.TooLarge) : Fails macros e bs .integerTooLarge

namespace Assembly

variable {macros : Macro.Table} {e : Ensemble} {bs : List Block} {b : Block} {a : Assembly}

theorem ends_playStaff (hb : b ∈ bs) (hpositive : b.Positive)
    (ha : e.Voiced (Block.pitchTexts macros bs) a.ensemble) (line : Nat) (start : Float)
    {ts : List Token} {id : String}
    (hts : ∀ t ∈ ts, ∀ text ∈ t.pitchTexts, text ∈ Block.pitchTexts macros bs id) :
    Ends (fun a' : Assembly ↦ e.Voiced (Block.pitchTexts macros bs) a'.ensemble)
      (Timeline.Fails macros e bs) (playStaff line b start ts a id).value := by
  rw [playStaff_value]
  refine ((Block.ends_meter hpositive start).mono (fun _ h ↦ h) ?_).bind fun m _ ↦ ?_
  · rintro f ⟨rfl, h⟩
    exact .integerTooLarge hb h
  refine ((Playing.ends_play m (ha.octave id) hts).mono (fun _ h ↦ h) ?_).bind fun p hp ↦ ?_
  · rintro f ⟨rfl, h⟩
    rw [ha.player] at h
    exact .numeralTooLong (.octave h)
  · exact .ok (ha.afterTurn hp)

theorem ends_playLine (hb : b ∈ bs) (hpositive : b.Positive)
    (ha : e.Voiced (Block.pitchTexts macros bs) a.ensemble) (start : Float) {l : Nat × List Char}
    (hl : l ∈ b.lines) :
    Ends (fun a' : Assembly ↦ e.Voiced (Block.pitchTexts macros bs) a'.ensemble)
      (Timeline.Fails macros e bs) (playLine macros b start a l).value := by
  rw [playLine_value]
  cases hs : Assignment.read? l.2 with
  | none => exact .ok ha
  | some s =>
    have htokens : Ends (fun ts ↦ contentTokens macros s.content = .ok ts)
        (Timeline.Fails macros e bs) (contentTokens macros s.content) := by
      refine ⟨fun ts h ↦ h, fun f h ↦ ?_⟩
      obtain ⟨rfl, i, g, hg, hlong⟩ :=
        (Repeat.ends_expand (macros.expand s.content).1).fault f (map_eq_error h)
      exact .numeralTooLong (.count hb hl hs hg hlong)
    refine htokens.bind fun ts hts ↦ ?_
    refine .foldlM (P := fun a : Assembly ↦ e.Voiced (Block.pitchTexts macros bs) a.ensemble) ha
      fun a id hid ha ↦ ?_
    exact ends_playStaff hb hpositive ha l.1 start fun t ht ↦
      Block.mem_pitchTexts hb hl hs hts hid ht

end Assembly

namespace Timeline

variable {macros : Macro.Table} {e : Ensemble} {bs : List Block}

theorem ends_addBlock {b : Block} (hb : b ∈ bs) (hpositive : b.Positive) {t : Timeline}
    (ht : e.Voiced (Block.pitchTexts macros bs) t.assembly.ensemble) :
    Ends (fun t' : Timeline ↦ e.Voiced (Block.pitchTexts macros bs) t'.assembly.ensemble)
      (Fails macros e bs) (addBlock macros t b).value := by
  have hplay : Ends (fun a : Assembly ↦ e.Voiced (Block.pitchTexts macros bs) a.ensemble)
      (Fails macros e bs) (t.assembly.playBlock macros b t.secondsOffset).value := by
    rw [Assembly.playBlock_value]
    exact .foldlM (P := fun a : Assembly ↦ e.Voiced (Block.pitchTexts macros bs) a.ensemble) ht
      fun a l hl ha ↦ Assembly.ends_playLine hb hpositive ha t.secondsOffset hl
  rw [addBlock_value]
  refine hplay.bind fun a ha ↦ ?_
  refine ((Block.ends_beats hpositive).mono (fun _ h ↦ h) ?_).bind fun beats _ ↦ ?_
  · rintro f ⟨rfl, h⟩
    exact .integerTooLarge hb h
  · rw [Block.beatSeconds_ok hpositive, ok_bind]
    exact .ok ha

/-- A timeline of positive blocks fails only at a whole number that is too long, or at a block with
a number that is too large. -/
theorem ends_ofBlocks (hbs : ∀ b ∈ bs, b.Positive) :
    Ends (fun t : Timeline ↦ e.Voiced (Block.pitchTexts macros bs) t.assembly.ensemble)
      (Fails macros e bs) (ofBlocks macros e bs).value := by
  rw [ofBlocks_value]
  exact .foldlM (P := fun t : Timeline ↦
    e.Voiced (Block.pitchTexts macros bs) t.assembly.ensemble) (.refl e _)
    fun t b hb ht ↦ ends_addBlock hb (hbs b hb) ht

end Timeline

end TextScore
