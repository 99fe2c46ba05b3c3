import TextScore.Proofs.Midi.Tempo
import TextScore.Proofs.Outcome
import TextScore.Proofs.Timeline.Transposition

/-!
# Which scores can be exported

A score that compiles may still not fit a MIDI file, though all that is announced to fail is the
access to the file.  Texts and names have one byte for each character, times have to be numbers, and
the tracks and their bytes are counted in fields of fixed width.  Nothing else stands in the way,
whatever the tempo of the playback is.

Exporting has two steps, and each can fail.  The score is arranged, where texts get their bytes and
times their ticks; and the arrangement is written, where numbers get their fields.  For each step
there is an exact condition, and for each failure a reason.  That there is no other reason is what
has to be shown, of every place at which something can fail: the pitch of a compiled note always has
a number, velocities and channels are in range, a usual tempo has its microseconds, and quantities
are of any length.

## What is here

* `Arrangement.ofScore_ok_iff`, `Arrangement.ofScore_error` — what can be arranged.
* `fileBytes_ok_iff`, `fileBytes_error` — what can be written.
* `Exports`, `exports_ofText` — which compiled scores can be exported, and what happens to the
  others.
* `unexported_ohm` — a score that compiles and cannot be exported.

The files that the program does not get to write are not distinguished here by whether a standard
reader would take them; that is in `Rendered`.
-/

set_option autoImplicit false

namespace TextScore.Midi

open Number

/-! ## Numbers

A time is measured in ticks if its product with the rate is no infinity, which it may be though the
time itself is none. -/

/-- A time in seconds is finite when it is measured in ticks. -/
def Playback.Measures (p : Playback) (seconds : Float) : Prop :=
  (seconds * (p.tempo / 60) * Float.ofNat division).isFinite = true

theorem Playback.ticks_ok_iff {p : Playback} {seconds : Float} :
    (∃ n, p.ticks seconds = .ok n) ↔ p.Measures seconds :=
  truncate_ok_iff

/-! ## Texts

The bytes are those of ISO-8859-1, which has the first 256 characters. -/

/-- Every character of a text has a byte. -/
def IsLatin1 (t : String) : Prop := ∀ c ∈ t.toList, c.toNat < 256

theorem latin1_ok_iff {t : String} : (∃ bs, latin1 t = .ok bs) ↔ IsLatin1 t := by
  have hall : (t.toList.all fun c ↦ c.toNat < 256) = true ↔ IsLatin1 t := by
    rw [List.all_eq_true]
    exact forall₂_congr fun c _ ↦ decide_eq_true_iff
  rw [← hall, latin1]
  split
  case isTrue h => exact iff_of_true ⟨_, rfl⟩ h
  case isFalse h =>
    refine iff_of_false ?_ h
    rintro ⟨bs, hbs⟩
    cases hbs

theorem latin1_error {t : String} {f : Fault} (h : latin1 t = .error f) :
    f = .unencodableText t := by
  rw [latin1] at h
  split at h
  · cases h
  · exact (Except.error.inj h).symm

/-! ## Notes -/

section

variable {p : Playback} {e : NoteEvent} {s : Score}

/-- A note can be arranged if it is left out or its times have ticks. -/
theorem noteOf_ok_iff (he : ∃ k, e.midiNote = .ok k) :
    (∃ x?, noteOf p e = .ok x?) ↔
      (e.isPlayable = true → p.Measures e.start ∧ p.Measures e.duration) := by
  obtain ⟨k, hk⟩ := he
  have hplayable : e.isPlayable = true ↔ 0 ≤ k ∧ k ≤ 127 := by
    rw [NoteEvent.isPlayable, hk]
    simp [Except.toOption]
  rw [noteOf, hk, ok_bind, hplayable]
  split
  case isTrue hrange =>
    rw [bind_ok_iff, ← p.ticks_ok_iff, ← p.ticks_ok_iff, forall_prop_of_true hrange]
    simp only [bind_pure_ok_iff, exists_and_right]
  case isFalse hrange => exact iff_of_true ⟨none, rfl⟩ fun h ↦ absurd h hrange

/-- The only notes that cannot be arranged are those whose times are no numbers. -/
theorem noteOf_error (he : ∃ k, e.midiNote = .ok k) {f : Fault} (h : noteOf p e = .error f) :
    f = .notANumber ∨ f = .infiniteNumber := by
  obtain ⟨k, hk⟩ := he
  rw [noteOf, hk, ok_bind] at h
  split at h
  · rcases bind_eq_error h with h | ⟨_, -, h⟩
    · exact truncate_error h
    rcases bind_eq_error h with h | ⟨_, -, h⟩
    · exact truncate_error h
    · cases h
  · cases h

/-! ## Arranging -/

namespace Arrangement

/-- The texts that a file has: title, composer and the names of the tracks. -/
def labels (s : Score) : List String := textsOf s ++ (trackRows s).map Row.name

/-- A score can be arranged if its texts have bytes and its times have ticks. -/
theorem ofScore_ok_iff (hp : ∃ n, p.microseconds = .ok n)
    (hs : ∀ e ∈ s.events, ∃ k, e.midiNote = .ok k) :
    (∃ a, ofScore p s = .ok a) ↔ (∀ t ∈ labels s, IsLatin1 t) ∧
      ∀ e ∈ s.events, e.isPlayable = true → p.Measures e.start ∧ p.Measures e.duration := by
  have hnotes : (∀ e ∈ s.events, ∃ x?, noteOf p e = .ok x?) ↔
      ∀ e ∈ s.events, e.isPlayable = true → p.Measures e.start ∧ p.Measures e.duration :=
    forall₂_congr fun e he ↦ noteOf_ok_iff (hs e he)
  have hpure (a : Arrangement) : (∃ b, (pure a : Except Fault Arrangement) = .ok b) ↔ True :=
    iff_true_intro ⟨a, rfl⟩
  have hname (r : Row) : (∃ x : Row × List UInt8, (do return (r, ← latin1 r.name)) = .ok x) ↔
      IsLatin1 r.name := by
    rw [bind_pure_ok_iff, latin1_ok_iff]
  obtain ⟨n, hn⟩ := hp
  rw [ofScore, hn, ok_bind, ← hnotes, labels, List.forall_mem_append, List.forall_mem_map]
  simp only [bind_ok_iff (x := List.mapM _ _), hpure, and_true, exists_and_right, mapM_ok_iff,
    latin1_ok_iff, hname, and_assoc]

theorem ofScore_error (hp : ∃ n, p.microseconds = .ok n)
    (hs : ∀ e ∈ s.events, ∃ k, e.midiNote = .ok k) {f : Fault} (h : ofScore p s = .error f) :
    (∃ t ∈ labels s, f = .unencodableText t) ∨ f = .notANumber ∨ f = .infiniteNumber := by
  obtain ⟨n, hn⟩ := hp
  rw [ofScore, hn, ok_bind] at h
  rcases bind_eq_error h with h | ⟨_, -, h⟩
  · obtain ⟨t, ht, h⟩ := mapM_error h
    exact .inl ⟨t, List.mem_append_left _ ht, latin1_error h⟩
  rcases bind_eq_error h with h | ⟨_, -, h⟩
  · obtain ⟨r, hr, h⟩ := mapM_error h
    rcases bind_eq_error h with h | ⟨_, -, h⟩
    · exact .inl ⟨r.name, List.mem_append_right _ (List.mem_map_of_mem hr), latin1_error h⟩
    · cases h
  rcases bind_eq_error h with h | ⟨_, -, h⟩
  · obtain ⟨e, he, h⟩ := mapM_error h
    exact .inr (noteOf_error (hs e he) h)
  · cases h

end Arrangement

/-! ## Writing

A number has a field if it is not negative and not too large.  Quantities have no width, so times
and lengths of texts cannot fail. -/

theorem field_ok_iff {width : Nat} {n : Int} :
    (∃ bs, field width n = .ok bs) ↔ 0 ≤ n ∧ n < (256 ^ width : Nat) := by
  rw [field]
  split
  case isTrue h => exact iff_of_true ⟨_, rfl⟩ h
  case isFalse h =>
    refine iff_of_false ?_ h
    rintro ⟨bs, hbs⟩
    cases hbs

theorem field_error {width : Nat} {n : Int} {f : Fault} (h : field width n = .error f) :
    f = .fieldTooSmall := by
  rw [field] at h
  split at h
  · cases h
  · exact (Except.error.inj h).symm

/-- The tempo of a message has room in its field. -/
def Message.HasBytes : Message → Prop
  | tempo n => 0 ≤ n ∧ n < 2 ^ 32
  | _ => True

theorem Message.bytes_ok {m : Message} (h : m.HasBytes) : ∃ bs, m.bytes = .ok bs := by
  cases m with
  | tempo n =>
    obtain ⟨bs, hbs⟩ := field_ok_iff.mpr (show 0 ≤ n ∧ n < (256 ^ 4 : Nat) from h)
    exact ⟨[0xFF, 0x51, 3] ++ bs.drop 1, by rw [bytes, hbs]; rfl⟩
  | _ => exact ⟨_, rfl⟩

/-- The bytes of a track behind its header. -/
def bodyBytes (es : List Event) : Except Fault (List UInt8) := do
  return (← Event.bytes (Event.sort es)) ++ endOfTrack

theorem trackChunk_eq (es : List Event) : trackChunk es = do
    let body ← bodyBytes es
    return chunkName "MTrk" ++ (← field 4 body.length) ++ body := by
  simp only [trackChunk, bodyBytes, bind_assoc, pure_bind]

theorem bodyBytes_ok {es : List Event} (h : ∀ e ∈ es, e.message.HasBytes) :
    ∃ body, bodyBytes es = .ok body := by
  rw [bodyBytes, bind_pure_ok_iff, Event.bytes, bind_pure_ok_iff, mapM_ok_iff]
  rintro ⟨e, gap⟩ he
  rw [Event.timedBytes, bind_pure_ok_iff]
  exact Message.bytes_ok (h e ((Event.sort_perm es).mem_iff.mp (List.of_mem_zip he).1))

/-- A file is written if its tracks and their bytes can be counted. -/
theorem fileBytes_ok_iff {tracks : List (List Event)}
    (h : ∀ es ∈ tracks, ∀ e ∈ es, e.message.HasBytes) :
    (∃ bs, fileBytes tracks = .ok bs) ↔ tracks.length < 2 ^ 16 ∧
      ∀ es ∈ tracks, ∀ body, bodyBytes es = .ok body → body.length < 2 ^ 32 := by
  have hheader : (∃ bs, headerChunk tracks.length = .ok bs) ↔ tracks.length < 2 ^ 16 := by
    have hsize : field 4 6 = .ok [0, 0, 0, 6] := rfl
    have hformat : field 2 1 = .ok [0, 1] := rfl
    have hdivision : ∃ bs, field 2 division = .ok bs := ⟨[3, 192], rfl⟩
    rw [headerChunk, hsize, ok_bind, hformat, ok_bind, bind_ok_iff]
    simp only [bind_pure_ok_iff, hdivision, and_true, field_ok_iff]
    omega
  -- the bytes of a track are there, so only their count can fail
  have hchunk : ∀ es ∈ tracks, (∃ bs, trackChunk es = .ok bs) ↔
      ∀ body, bodyBytes es = .ok body → body.length < 2 ^ 32 := by
    intro es hes
    obtain ⟨body, hbody⟩ := bodyBytes_ok (h es hes)
    rw [trackChunk_eq, hbody, ok_bind, bind_pure_ok_iff, field_ok_iff]
    constructor
    · intro hlength body' hbody'
      obtain rfl := Except.ok.inj hbody'
      omega
    · intro hlength
      have := hlength body rfl
      omega
  rw [fileBytes, bind_ok_iff]
  simp only [bind_pure_ok_iff, exists_and_right, hheader, mapM_ok_iff]
  exact and_congr_right fun _ ↦ forall₂_congr hchunk

/-- Nothing but the counting of tracks and bytes fails. -/
theorem fileBytes_error {tracks : List (List Event)}
    (h : ∀ es ∈ tracks, ∀ e ∈ es, e.message.HasBytes) {f : Fault}
    (hf : fileBytes tracks = .error f) : f = .fieldTooSmall := by
  have hheader {n : Nat} (hf : headerChunk n = .error f) : f = .fieldTooSmall := by
    iterate 4
      rcases bind_eq_error hf with hf | ⟨_, -, hf⟩
      · exact field_error hf
    cases hf
  rcases bind_eq_error hf with hf | ⟨_, -, hf⟩
  · exact hheader hf
  rcases bind_eq_error hf with hf | ⟨_, -, hf⟩
  · obtain ⟨es, hes, hf⟩ := mapM_error hf
    obtain ⟨body, hbody⟩ := bodyBytes_ok (h es hes)
    rw [trackChunk_eq, hbody, ok_bind] at hf
    rcases bind_eq_error hf with hf | ⟨_, -, hf⟩
    · exact field_error hf
    · cases hf
  · cases hf

/-- At a usual tempo all messages of an arrangement have bytes. -/
theorem Arrangement.hasBytes_events {a : Arrangement} (h : ofScore p s = .ok a)
    (hlow : 1 ≤ p.tempo) (hhigh : p.tempo ≤ 1000) :
    ∀ es ∈ a.events, ∀ e ∈ es, e.message.HasBytes := by
  obtain ⟨n, hn, hbounds⟩ := p.microseconds_ok hlow hhigh
  intro es hes e he
  simp only [events, List.mem_cons, List.mem_map] at hes
  rcases hes with rfl | rfl | ⟨t, -, rfl⟩
  · obtain rfl := List.mem_singleton.mp he
    exact microseconds_eq hn h ▸ hbounds
  · obtain ⟨text, -, rfl⟩ := List.mem_map.mp he
    trivial
  · rcases mem_track_events.mp he with rfl | ⟨n, -, rfl | rfl⟩ <;> trivial

end

/-! ## Compiled scores

Whether two tracks and those of the instruments can be counted depends on the instruments alone. -/

/-- How far a score can be exported. -/
structure Exports (p : Playback) (s : Score) : Prop where
  /-- It is arranged if and only if its texts have one byte for each character, and the times of
  the notes that MIDI can play are finite. -/
  arranged : (∃ a, Arrangement.ofScore p s = .ok a) ↔
    (∀ t ∈ Arrangement.labels s, IsLatin1 t) ∧
      ∀ e ∈ s.events, e.isPlayable = true → p.Measures e.start ∧ p.Measures e.duration
  /-- If it is not, a text or a time is to blame. -/
  unarranged : ∀ f, Arrangement.ofScore p s = .error f →
    (∃ t ∈ Arrangement.labels s, f = .unencodableText t) ∨ f = .notANumber ∨ f = .infiniteNumber
  /-- The file is written if and only if its tracks and the bytes of each can be counted. -/
  written : ∀ a, Arrangement.ofScore p s = .ok a → ((∃ bs, a.fileBytes = .ok bs) ↔
    (trackRows s).length + 2 < 2 ^ 16 ∧
      ∀ es ∈ a.events, ∀ body, bodyBytes es = .ok body → body.length < 2 ^ 32)
  /-- If it is not, a count has no room. -/
  unwritten : ∀ a f, Arrangement.ofScore p s = .ok a → a.fileBytes = .error f → f = .fieldTooSmall

/-- **What can be exported.**  At a usual tempo of the playback, a compiled score fails to be
exported for these reasons only: a text that has a character without a byte, a time that is no
number, and tracks or bytes that are too many to count.  None of them has to do with files;
`unexported_ohm` is a score that fails by its title. -/
theorem exports_ofText {defaults : Defaults} {text : String} {s : Score} {p : Playback}
    (h : (Score.ofText defaults text).1 = .ok s) (hlow : 1 ≤ p.tempo) (hhigh : p.tempo ≤ 1000) :
    Exports p s := by
  have hp : ∃ n, p.microseconds = .ok n := (p.microseconds_ok hlow hhigh).imp fun _ h ↦ h.1
  have hs : ∀ e ∈ s.events, ∃ k, e.midiNote = .ok k := by
    rw [Score.ofText_fst] at h
    obtain ⟨d, hd, rfl⟩ := map_eq_ok h
    obtain ⟨e, t, -, -, ht, hevents, -⟩ := Draft.ofText_ok hd
    intro n hn
    rw [Draft.score, hevents, List.mem_mergeSort, Array.mem_toList_iff] at hn
    obtain ⟨q, hq⟩ := Timeline.named_ofBlocks ht n hn
    exact ⟨_, Pitch.midiNumber_of_name hq⟩
  refine ⟨Arrangement.ofScore_ok_iff hp hs, fun _ ↦ Arrangement.ofScore_error hp hs, ?_, ?_⟩
  · intro a ha
    obtain ⟨xs, -, -, hrows, -⟩ := ofScore_ok ha
    have hlength : a.events.length = (trackRows s).length + 2 := by
      simp [Arrangement.events, ← hrows]
    rw [Arrangement.fileBytes, fileBytes_ok_iff (Arrangement.hasBytes_events ha hlow hhigh),
      hlength]
  · intro a f ha hf
    exact fileBytes_error (Arrangement.hasBytes_events ha hlow hhigh) hf

/-- One note of a quarter at the tempo of the playback. -/
theorem exports_ofText_quarter : ∃ s, (Score.ofText {} quarter).1 = .ok s ∧
    (1 : Float) ≤ Playback.tempo {} ∧ Playback.tempo {} ≤ 1000 ∧ Exports {} s := by
  have hlow : (1 : Float) ≤ Playback.tempo {} := by decide
  have hhigh : Playback.tempo {} ≤ 1000 := by decide
  obtain ⟨s, hs⟩ := exists_ok (x := (Score.ofText {} quarter).1) (by decide +kernel)
  exact ⟨s, hs, hlow, hhigh, exports_ofText hs hlow hhigh⟩

/-! ## A score that cannot be exported

The title is a single Greek letter, which is not among the first 256 characters. -/

/-- One note, under a title with a letter that has no byte. -/
def ohm : String := "meta \x7b title: \"Ω\" \x7d\nm 1\np: c4"

/-- The score is compiled, but its title cannot be written. -/
theorem unexported_ohm : ∃ s, (Score.ofText {} ohm).1 = .ok s ∧ s.hasPlayableNotes = true ∧
    Arrangement.ofScore {} s = .error (.unencodableText "Ω") := by
  obtain ⟨s, hs, hshown⟩ := exists_ok_of_any (x := (Score.ofText {} ohm).1) (f := fun s ↦
    s.hasPlayableNotes && match Arrangement.ofScore {} s with
      | .error (.unencodableText t) => t == "Ω"
      | _ => false) (by decide +kernel)
  obtain ⟨hplayable, hfault⟩ := Bool.and_eq_true_iff.mp hshown
  refine ⟨s, hs, hplayable, ?_⟩
  split at hfault
  case h_1 t ht => rw [ht, beq_iff_eq.mp hfault]
  case h_2 => cases hfault

end TextScore.Midi
