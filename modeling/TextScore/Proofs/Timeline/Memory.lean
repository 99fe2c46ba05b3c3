import TextScore.Proofs.Score.Stages
import TextScore.Proofs.Timeline.History

/-!
# What a staff remembers is its history

While a score is compiled a staff meets its tokens one by one, between those of all other staves,
and carries its duration, its octave and its grid from one to the next.  `Timeline.moments` is what
happens: every token that is played, with the staff as it stands then.  For one instrument the
moments are its own tokens in the order of the score, and the staff at each of them is what its
history says.

`TextScore.Proofs.Timeline.History` looks at the notes that come out.  That leaves open what a staff
holds at a token without notes, at a rest or at a barline, and whether a token is met at all.  So
here the run itself is recorded, and not what it yields: `visits` takes the states in which a loop
meets its items, and the definitions of moments follow the four loops of the timeline from the
blocks down to the tokens.

## What is here

* `visits` — the states in which a loop meets its items.
* `Timeline.moments` — the tokens of all staves in the order in which they are played.
* `Staff.trail` — the moments of a staff that plays alone.
* `Follows` — between two states, one instrument plays some tokens in some moments.
* `Timeline.own_moments` — the moments of one instrument are those of a staff that plays alone.
* `Draft.history_ofText` — the law of memory, for whole compilations.

One lemma, `follows_visits`, goes through a loop, whatever the loop is over.  It is used three
times, for the instruments of a line, the lines of a block and the blocks of a score.
-/

set_option autoImplicit false

namespace TextScore

open Text Number

variable {α σ ε : Type}

/-- The states in which a loop meets its items, as far as it comes. -/
def visits (f : σ → α → Except ε σ) (s : σ) : List α → List (σ × α)
  | [] => []
  | a :: as => (s, a) ::
    match f s a with
    | .ok s' => visits f s' as
    | .error _ => []

/-- A token that is played, and the staff as it stands then. -/
structure Moment where
  /-- The id of the instrument. -/
  id : String
  /-- The staff before the token. -/
  staff : Staff
  /-- The token. -/
  token : Token

/-- The duration code that is used for the token, if it takes time. -/
def Moment.code? (x : Moment) : Option String :=
  x.token.sound?.map fun s ↦ x.staff.durationCode s.code?

/-! ## What happens

A run that fails has moments too, up to where it fails.  The theorems below are about runs that come
to an end, for which nothing is cut off. -/

/-- The moments of a run of tokens. -/
def Playing.moments (m : Meter) (i : Instrument) (id : String) (p : Playing) (ts : List Token) :
    List Moment :=
  (visits (fun p t ↦ (step m i p t).value) p ts).map fun x ↦ ⟨id, x.1.staff, x.2⟩

namespace Assembly

/-- The moments of the turn of an instrument. -/
def turnMoments (b : Block) (start : Float) (ts : List Token) (a : Assembly) (id : String) :
    List Moment :=
  let (i, ensemble, _) := a.ensemble.resolve id
  match ensemble.staff id, b.meter start with
  | .ok st, .ok m =>
    Playing.moments m i id ⟨st, (a.positions.get? id).getD ⟨start, 0⟩, a.events⟩ ts
  | _, _ => []

/-- The moments of a staff line. -/
def lineMoments (macros : Macro.Table) (b : Block) (start : Float) (a : Assembly)
    (l : Nat × List Char) : List Moment :=
  match Assignment.read? l.2 with
  | none => []
  | some s =>
    match (tokens macros l.1 s.content).value with
    | .error _ => []
    | .ok ts =>
      (visits (fun a id ↦ (playStaff l.1 b start ts a id).value) a
        (s.ids.map String.ofList)).flatMap fun x ↦ turnMoments b start ts x.1 x.2

/-- The moments of a block. -/
def blockMoments (macros : Macro.Table) (a : Assembly) (b : Block) (start : Float) :
    List Moment :=
  (visits (fun a l ↦ (playLine macros b start a l).value) { a with positions := ∅ }
    b.lines).flatMap fun x ↦ lineMoments macros b start x.1 x.2

end Assembly

/-- The moments of a timeline: all tokens in the order in which they are played. -/
def Timeline.moments (macros : Macro.Table) (e : Ensemble) (bs : List Block) : List Moment :=
  (visits (fun t b ↦ (addBlock macros t b).value) { assembly := { ensemble := e } } bs).flatMap
    fun x ↦ x.1.assembly.blockMoments macros x.2 x.1.secondsOffset

/-! ## A staff alone

Without other staves and without notes the memory of a staff is a fold over its tokens. -/

/-- The moments of a staff that plays alone. -/
def Staff.trail (id : String) (s : Staff) : List Token → List Moment
  | [] => []
  | t :: ts => ⟨id, s, t⟩ :: (s.after t).trail id ts

theorem Staff.trail_append (id : String) (s : Staff) (ts us : List Token) :
    s.trail id (ts ++ us) = s.trail id ts ++ (ts.foldl Staff.after s).trail id us := by
  induction ts generalizing s with
  | nil => rfl
  | cons t ts ih => rw [List.cons_append, trail, trail, ih, List.foldl_cons, List.cons_append]

/-- A staff that plays alone uses at every token the code that its history says. -/
theorem Staff.Remembers.trail_codes {st s : Staff} {past : List Token} (h : st.Remembers past s)
    (id : String) (ts : List Token) :
    (s.trail id ts).map (fun x ↦ (x.token, x.code?)) =
      (withPast past ts).map fun x ↦ (x.2, x.2.sound?.map fun s ↦ st.codeAt x.1 s.code?) := by
  induction ts generalizing past s with
  | nil => rfl
  | cons t ts ih =>
    have hcode : (fun x : Sound ↦ s.durationCode x.code?) = fun x ↦ st.codeAt past x.code? :=
      funext fun x ↦ h.code_eq x.code?
    rw [trail, withPast, List.map_cons, List.map_cons, ih (h.after t), Moment.code?, hcode]

/-! ## The moments of one instrument

In the turn of another instrument there are no moments of this one, and its staff is left alone; in
its own turn all moments are its own.  Either way the moments of a run, filtered for one id, are a
trail, and trails compose. -/

/-- Between two staves, one instrument plays some tokens in some moments. -/
structure Follows (id : String) (ts : List Token) (s s' : Staff) (xs : List Moment) : Prop where
  /-- The staff behind the tokens. -/
  staff : s' = ts.foldl Staff.after s
  /-- The moments of the instrument. -/
  own : xs.filter (·.id = id) = s.trail id ts

theorem Follows.append {id : String} {ts us : List Token} {s s' s'' : Staff} {xs ys : List Moment}
    (h : Follows id ts s s' xs) (h' : Follows id us s' s'' ys) :
    Follows id (ts ++ us) s s'' (xs ++ ys) where
  staff := by rw [List.foldl_append, ← h.staff, h'.staff]
  own := by rw [List.filter_append, Staff.trail_append, ← h.staff, h.own, h'.own]

/-- What one item makes an instrument play, a loop makes it play one after the other. -/
theorem follows_visits {f : σ → α → Except ε σ} {part : α → List Token} (memory : σ → Staff)
    (moments : σ → α → List Moment) {id : String}
    (hstep : ∀ s a s', f s a = .ok s' → Follows id (part a) (memory s) (memory s') (moments s a))
    {as : List α} {s s' : σ} (h : as.foldlM f s = .ok s') :
    Follows id (as.flatMap part) (memory s) (memory s')
      ((visits f s as).flatMap fun x ↦ moments x.1 x.2) := by
  induction as generalizing s with
  | nil =>
    cases h
    exact ⟨rfl, rfl⟩
  | cons a as ih =>
    obtain ⟨s₁, h₁, h⟩ := foldlM_cons_ok h
    rw [List.flatMap_cons, visits, h₁, List.flatMap_cons]
    exact (hstep s a s₁ h₁).append (ih h)

theorem Playing.follows_play {m : Meter} {i : Instrument} {p q : Playing} {ts : List Token}
    (h : play m i p ts = .ok q) (id : String) :
    Follows id ts p.staff q.staff (moments m i id p ts) := by
  have hstep : ∀ p t q, (step m i p t).value = .ok q →
      Follows id [t] p.staff q.staff [⟨id, p.staff, t⟩] := fun p t q h ↦
    ⟨(step_ok h).1, by simp [Staff.trail]⟩
  have := follows_visits staff (fun p t ↦ [⟨id, p.staff, t⟩]) hstep h
  rwa [List.flatMap_singleton', ← List.map_eq_flatMap] at this

theorem Playing.moments_other {m : Meter} {i : Instrument} {p : Playing} {ts : List Token}
    {id k : String} (h : id ≠ k) : (moments m i id p ts).filter (·.id = k) = [] := by
  refine List.filter_eq_nil_iff.mpr fun x hx hk ↦ h ?_
  obtain ⟨y, -, rfl⟩ := List.mem_map.mp hx
  exact of_decide_eq_true hk

namespace Assembly

variable {macros : Macro.Table} {b : Block} {start : Float} {m : Meter}

theorem turnMoments_eq (hm : b.meter start = .ok m) (ts : List Token) (a : Assembly)
    (id : String) :
    turnMoments b start ts a id = Playing.moments m (a.ensemble.player id) id
      ⟨a.ensemble.memory id, a.position start id, a.events⟩ ts := by
  have hstaff := a.ensemble.staff_enrol id
  rw [Ensemble.enrol] at hstaff
  rw [turnMoments, ← a.ensemble.resolve_fst id]
  dsimp only
  rw [hstaff, hm]
  rfl

/-- In a turn one instrument plays, and the others remember what they did. -/
theorem follows_playStaff (hm : b.meter start = .ok m) {line : Nat} {ts : List Token}
    {a a' : Assembly} {id : String} (h : (playStaff line b start ts a id).value = .ok a')
    (k : String) :
    Follows k (if id = k then ts else []) (a.ensemble.memory k) (a'.ensemble.memory k)
      (turnMoments b start ts a id) := by
  rw [playStaff_value, hm, ok_bind] at h
  obtain ⟨p, hp, h⟩ := bind_eq_ok h
  cases h
  rw [turnMoments_eq hm]
  by_cases hk : id = k
  · subst hk
    rw [if_pos rfl, afterTurn, Ensemble.memory_afterTurn_self]
    exact Playing.follows_play hp id
  · rw [if_neg hk, afterTurn, Ensemble.memory_afterTurn_of_ne _ (Ne.symm hk)]
    exact ⟨rfl, Playing.moments_other hk⟩

theorem follows_playLine (hm : b.meter start = .ok m) {a a' : Assembly} {l : Nat × List Char}
    (h : (playLine macros b start a l).value = .ok a') (k : String) :
    Follows k (linePart macros k l) (a.ensemble.memory k) (a'.ensemble.memory k)
      (lineMoments macros b start a l) := by
  rw [playLine] at h
  rw [linePart, lineMoments]
  cases hl : Assignment.read? l.2 with
  | none =>
    rw [hl] at h
    cases h
    exact ⟨rfl, rfl⟩
  | some s =>
    rw [hl] at h
    dsimp only at h ⊢
    rw [Noted.value_bind fun ts ↦ .foldlM (appends_playStaff l.1 b start ts) _ _] at h
    obtain ⟨ts, hts, h⟩ := bind_eq_ok h
    rw [Noted.value_foldlM (appends_playStaff l.1 b start ts)] at h
    rw [hts, ← tokens_value macros l.1, hts]
    exact follows_visits (·.ensemble.memory k) (turnMoments b start ts)
      (fun _ _ _ h ↦ follows_playStaff hm h k) h

theorem follows_playBlock (hm : b.meter start = .ok m) {a a' : Assembly}
    (h : (playBlock macros a b start).value = .ok a') (k : String) :
    Follows k (b.part macros k) (a.ensemble.memory k) (a'.ensemble.memory k)
      (blockMoments macros a b start) := by
  rw [playBlock, Noted.value_foldlM (appends_playLine macros b start)] at h
  exact follows_visits (·.ensemble.memory k) (lineMoments macros b start)
    (fun _ _ _ h ↦ follows_playLine hm h k) h

end Assembly

namespace Timeline

theorem follows_addBlock {macros : Macro.Table} {b : Block} {t t' : Timeline}
    (h : (addBlock macros t b).value = .ok t') (k : String) :
    Follows k (b.part macros k) (t.assembly.ensemble.memory k) (t'.assembly.ensemble.memory k)
      (t.assembly.blockMoments macros b t.secondsOffset) := by
  obtain ⟨m, -, hm, -⟩ := addBlock_ok h
  rw [addBlock_value] at h
  obtain ⟨a, ha, h⟩ := bind_eq_ok h
  obtain ⟨beats, -, h⟩ := bind_eq_ok h
  obtain ⟨beat, -, h⟩ := bind_eq_ok h
  cases h
  exact Assembly.follows_playBlock hm ha k

/-- The moments of one instrument are those of its staff playing its own tokens alone. -/
theorem own_moments {macros : Macro.Table} {e : Ensemble} {bs : List Block} {t : Timeline}
    (h : (ofBlocks macros e bs).value = .ok t) (id : String) :
    (moments macros e bs).filter (·.id = id) =
      (e.memory id).trail id (bs.flatMap (Block.part macros id)) := by
  rw [ofBlocks_value] at h
  exact (follows_visits (·.assembly.ensemble.memory id)
    (fun t b ↦ t.assembly.blockMoments macros b t.secondsOffset)
    (fun _ _ _ h ↦ follows_addBlock h id) h).own

end Timeline

/-! ## The law of memory

The staff of a compilation starts from the defaults, whoever it belongs to: a declaration gives a
new staff, and so does the first mention of an instrument that nobody declared. -/

/-- What an instrument plays in a compilation follows from its history alone.

The code of each sound is its own, or else that of the latest grid, or else the latest one that was
written, or else the default; this is the code that the staff uses when it meets the sound, and the
notes of the sound last as long as it says.  The pitch of each note is the written one in the octave
that was written last, or else in the default octave.

The events of the draft are those of the timeline in the order of their starts.  If all starts are
numbers there is just one such order that keeps ties as they are; among starts that are no numbers
the order is that of the merge sort, and nothing else is said about it. -/
def Draft.FollowsHistory (defaults : Defaults) (text : List Char) (d : Draft) (id : String) :
    Prop :=
  ∃ e t, (Ensemble.collect defaults (prepare text).1).value = .ok e ∧
    (Timeline.ofBlocks (prepare text).2 e d.body.blocks).value = .ok t ∧
    d.events = t.assembly.events.toList.mergeSort NoteEvent.notAfter ∧
    ((Timeline.moments (prepare text).2 e d.body.blocks).filter (·.id = id)).map
        (fun x ↦ (x.token, x.code?)) =
      (withPast [] (d.body.blocks.flatMap (Block.part (prepare text).2 id))).map (fun x ↦
        (x.2, x.2.sound?.map fun s ↦ defaults.newStaff.codeAt x.1 s.code?)) ∧
    List.Forall₂ (Wanted.Sounds (e.player id))
      (wanted (prepare text).2 defaults.newStaff id d.body.blocks)
      (notesOf id t.assembly.events).toList ∧
    List.Forall₂
      (fun (pitch : Pitch) (n : NoteEvent) ↦
        (pitch.transpose (e.player id).transpose).name = .ok n.pitch)
      (defaults.newStaff.pitchesAt []
        ((d.body.blocks.flatMap (Block.part (prepare text).2 id)).flatMap Token.pitchTexts))
      (notesOf id t.assembly.events).toList

/-- **Memory is history**, in every compilation and for every instrument.  The duration codes that
the staff uses at its tokens, the notes with their times, and the written pitches are those that the
tokens before them say, whatever the other staves do in between. -/
theorem Draft.history_ofText {defaults : Defaults} {text : List Char} {d : Draft}
    (h : (ofText defaults text).value = .ok d) (id : String) :
    FollowsHistory defaults text d id := by
  obtain ⟨e, t, he, -, ht, hevents, -⟩ := ofText_ok h
  have hfresh : e.memory id = defaults.newStaff := (Ensemble.fresh_collect he).memory id
  have hsounds := (Timeline.holds_ofBlocks ht id).notes
  rw [hfresh] at hsounds
  refine ⟨e, t, he, ht, hevents, ?_, hsounds, ?_⟩
  · rw [Timeline.own_moments ht, hfresh, defaults.newStaff.remembers_nil.trail_codes]
  · rw [← map_pitch_wanted, List.forall₂_map_left_iff]
    exact hsounds.imp fun _ _ hw ↦ hw.2.2

/-- A shared line with written octaves, a grid, a code under the grid, and in a second block a text
that is no pitch. -/
def sharedLine : String := "m 1\np, q: c5:8 r !16 d:2 e3\nm 2\nq: r h | c:4"

/-- The code under the grid counts for its own note only, and the octave is that of the latest
pitch. -/
theorem Draft.history_ofText_shared_line :
    ∃ d body t, (ofText {} sharedLine.toList).value = .ok d ∧
      FollowsHistory {} sharedLine.toList d "q" ∧
      timelineOf {} sharedLine.toList = .ok (body, t) ∧
      (notesOf "q" t.assembly.events).toList.map (fun n ↦ (n.pitch, n.duration)) =
        [("C5", 0.25), ("D5", 1), ("E3", 0.125), ("C3", 0.125), ("C3", 0.5)] := by
  obtain ⟨⟨body, t⟩, ht, hshown⟩ := exists_ok_of_any (x := timelineOf {} sharedLine.toList)
    (f := fun x ↦
      (x.2.assembly.ensemble.groups.mapM (layout x.2.assembly.ensemble)).toOption.isSome = true ∧
      (notesOf "q" x.2.assembly.events).toList.map (fun n ↦ (n.pitch, n.duration)) =
        [("C5", 0.25), ("D5", 1), ("E3", 0.125), ("C3", 0.125), ("C3", 0.5)]) (by decide +kernel)
  obtain ⟨hgroups, hnotes⟩ := of_decide_eq_true hshown
  obtain ⟨s, hs, -⟩ := Score.exists_ofText ht hgroups
  rw [Score.ofText_fst] at hs
  obtain ⟨d, hd, -⟩ := map_eq_ok hs
  exact ⟨d, body, t, hd, history_ofText hd "q", ht, hnotes⟩

end TextScore
