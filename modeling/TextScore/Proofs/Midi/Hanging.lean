import TextScore.Proofs.Midi.Rendered
import TextScore.Proofs.Midi.Ticks

/-!
# Notes that do not end

A file is to play back in real time, so every note that starts should end, whatever the tempo is and
however short the note.  But a note that is shorter than a tick may not.

Ends come before starts at one tick, so that a note can be repeated.  A note that is shorter than a
tick has its end in front of its own start, and only a later end of a note of the same pitch can end
it.  If there is none, it sounds on when the track is over.  The tempo of a block may be as high as
it likes, so there are such notes.

To say what sounds on, the events of a track are gone through with the set of keys that are down; a
key is a channel and a pitch.  It is down in the end if it was struck and not released since.  Which
releases come behind a strike is a matter of the order in which the events were sorted: those with
later ticks.  So there is an exact condition on the notes, in which neither bytes nor the order of
events appear: for every note there is one of its pitch, it or another one, that ends at a later
tick than that of its start.

## What is here

* `sounding` — the keys that are down behind some events.
* `mem_sounding_iff` — those that were struck and not released since.
* `release_mem_after_iff` — which ends are behind a start.
* `Ended` — when a key that was struck is released, and when all keys are.
* `ended_ofText` — the file of a score.
* `sounding_spark` — a note that does not end.

Starts count as starts at any velocity; those with velocity zero, which players take for ends, are
not looked at apart.
-/

set_option autoImplicit false

namespace TextScore.Midi

/-! ## Keys

Going through the events keeps a list of keys; what is in it says when a key is down, and how often
it was struck is of no account. -/

namespace Event

variable {e : Event} {key : Nat × Nat}

/-- The event strikes a key: a channel and a pitch. -/
def Strikes (e : Event) (key : Nat × Nat) : Prop :=
  ∃ velocity, e.message = .noteOn key.1 key.2 velocity

/-- The event releases a key. -/
def Releases (e : Event) (key : Nat × Nat) : Prop :=
  ∃ velocity, e.message = .noteOff key.1 key.2 velocity

end Event

/-- The keys that are down, after one event more. -/
def keysAfter (keys : List (Nat × Nat)) (e : Event) : List (Nat × Nat) :=
  match e.message with
  | .noteOn channel pitch _ => (channel, pitch) :: keys
  | .noteOff channel pitch _ => keys.filter (· ≠ (channel, pitch))
  | _ => keys

/-- The keys that are down behind some events. -/
def sounding (es : List Event) : List (Nat × Nat) := es.foldl keysAfter []

section

variable {keys : List (Nat × Nat)} {key : Nat × Nat} {e : Event} {es : List Event}

theorem mem_keysAfter :
    key ∈ keysAfter keys e ↔ e.Strikes key ∨ key ∈ keys ∧ ¬e.Releases key := by
  obtain ⟨channel, pitch⟩ := key
  rw [keysAfter, Event.Strikes, Event.Releases]
  cases e.message with
  | noteOn => simp [@eq_comm _ channel, @eq_comm _ pitch]
  | noteOff => simp [@eq_comm _ channel, @eq_comm _ pitch, and_comm, imp_iff_not_or]
  | tempo | text | trackName => simp

/-- A key that is down was down before and is not released, or it is struck and not released
since. -/
theorem mem_foldl_keysAfter : key ∈ es.foldl keysAfter keys ↔
    (key ∈ keys ∧ ∀ e ∈ es, ¬e.Releases key) ∨
      ∃ before e after, es = before ++ e :: after ∧ e.Strikes key ∧
        ∀ e' ∈ after, ¬e'.Releases key := by
  induction es generalizing keys with
  | nil => simp
  | cons e es ih =>
    rw [List.foldl_cons, ih, mem_keysAfter]
    constructor
    · rintro (⟨hstruck | ⟨hkey, hkept⟩, hes⟩ | ⟨before, e', after, rfl, hstruck, hafter⟩)
      · exact .inr ⟨[], e, es, rfl, hstruck, hes⟩
      · exact .inl ⟨hkey, List.forall_mem_cons.mpr ⟨hkept, hes⟩⟩
      · exact .inr ⟨e :: before, e', after, rfl, hstruck, hafter⟩
    · rintro (⟨hkey, hes⟩ | ⟨before, e', after, hsplit, hstruck, hafter⟩)
      · rw [List.forall_mem_cons] at hes
        exact .inl ⟨.inr ⟨hkey, hes.1⟩, hes.2⟩
      · rcases List.cons_eq_append_iff.mp hsplit with ⟨rfl, hcons⟩ | ⟨before, rfl, rfl⟩
        · obtain ⟨rfl, rfl⟩ := List.cons.inj hcons
          exact .inl ⟨.inl hstruck, hafter⟩
        · exact .inr ⟨before, e', after, rfl, hstruck, hafter⟩

theorem mem_sounding_iff : key ∈ sounding es ↔
    ∃ before e after, es = before ++ e :: after ∧ e.Strikes key ∧
      ∀ e' ∈ after, ¬e'.Releases key := by
  rw [sounding, mem_foldl_keysAfter]
  simp

end

/-! ## Starts and ends in a track

All notes of a track have its channel, so keys are told apart by pitches. -/

section

variable {t : Track} {n m : Note} {e : Event} {key : Nat × Nat} {before after es : List Event}

@[simp] theorem Note.strikes_onset {channel : Nat} :
    (n.onset channel).Strikes key ↔ (channel, n.pitch) = key := by
  simp [onset, Event.Strikes, Prod.ext_iff]

@[simp] theorem Note.releases_release {channel : Nat} :
    (m.release channel).Releases key ↔ (channel, m.pitch) = key := by
  simp [release, Event.Releases, Prod.ext_iff]

theorem exists_note_of_strikes (he : e ∈ t.events) (h : e.Strikes key) :
    ∃ n ∈ t.notes, e = n.onset t.channel ∧ (t.channel, n.pitch) = key := by
  rcases mem_track_events.mp he with rfl | ⟨n, hn, rfl | rfl⟩
  · simp [Event.Strikes] at h
  · exact ⟨n, hn, rfl, Note.strikes_onset.mp h⟩
  · simp [Note.release, Event.Strikes] at h

theorem exists_note_of_releases (he : e ∈ t.events) (h : e.Releases key) :
    ∃ m ∈ t.notes, e = m.release t.channel ∧ (t.channel, m.pitch) = key := by
  rcases mem_track_events.mp he with rfl | ⟨m, hm, rfl | rfl⟩
  · simp [Event.Releases] at h
  · simp [Note.onset, Event.Releases] at h
  · exact ⟨m, hm, rfl, Note.releases_release.mp h⟩

/-- An end at the tick of a start comes first. -/
theorem release_notAfter_onset (channel : Nat) :
    (m.release channel).notAfter (n.onset channel) = true ↔ m.tick + m.ticks ≤ n.tick := by
  rw [Event.notAfter_iff, Int.le_iff_lt_or_eq]
  simp [Note.release, Note.onset, Message.rank]

theorem onset_notAfter_release (channel : Nat) :
    (n.onset channel).notAfter (m.release channel) = true ↔ n.tick < m.tick + m.ticks := by
  rw [Event.notAfter_iff]
  simp [Note.release, Note.onset, Message.rank]

/-- The ends behind a start are those with later ticks. -/
theorem release_mem_after_iff (hperm : es.Perm t.events)
    (hsorted : es.Pairwise fun a b ↦ a.notAfter b = true)
    (hsplit : es = before ++ n.onset t.channel :: after) (hm : m ∈ t.notes) :
    m.release t.channel ∈ after ↔ n.tick < m.tick + m.ticks := by
  have hmem : m.release t.channel ∈ es :=
    hperm.mem_iff.mpr (mem_track_events.mpr (.inr ⟨m, hm, .inr rfl⟩))
  rw [hsplit] at hsorted hmem
  obtain ⟨-, hafter, hbefore⟩ := List.pairwise_append.mp hsorted
  rw [List.pairwise_cons] at hafter
  constructor
  · exact fun hrelease ↦ (onset_notAfter_release _).mp (hafter.1 _ hrelease)
  · intro hlater
    -- in front of the start stand only ends that are not at a later tick
    rcases List.mem_append.mp hmem with hearlier | hmem
    · have hle := hbefore _ hearlier _ List.mem_cons_self
      rw [release_notAfter_onset] at hle
      omega
    rcases List.mem_cons.mp hmem with hsame | hmem
    · cases congrArg Event.message hsame
    · exact hmem

/-- When the notes of a track end, in the events of the track. -/
structure Ended (t : Track) (es : List Event) : Prop where
  /-- A key that is struck is released behind that if a note of the pitch ends at a later tick. -/
  released : ∀ before e after key, es = before ++ e :: after → e.Strikes key →
    ((∃ e' ∈ after, e'.Releases key) ↔ ∃ m ∈ t.notes, m.pitch = key.2 ∧ e.tick < m.tick + m.ticks)
  /-- Nothing sounds on if that is so for every note. -/
  silent : sounding es = [] ↔
    ∀ n ∈ t.notes, ∃ m ∈ t.notes, m.pitch = n.pitch ∧ n.tick < m.tick + m.ticks

theorem exists_releases_iff (hperm : es.Perm t.events)
    (hsorted : es.Pairwise fun a b ↦ a.notAfter b = true)
    (hsplit : es = before ++ n.onset t.channel :: after) :
    (∃ e ∈ after, e.Releases (t.channel, n.pitch)) ↔
      ∃ m ∈ t.notes, m.pitch = n.pitch ∧ n.tick < m.tick + m.ticks := by
  constructor
  · rintro ⟨e, he, hreleases⟩
    have hmem : e ∈ t.events := hperm.mem_iff.mp (by simp [hsplit, he])
    obtain ⟨m, hm, rfl, hkey⟩ := exists_note_of_releases hmem hreleases
    exact ⟨m, hm, (Prod.mk.inj hkey).2, (release_mem_after_iff hperm hsorted hsplit hm).mp he⟩
  · rintro ⟨m, hm, hpitch, hlater⟩
    exact ⟨m.release t.channel, (release_mem_after_iff hperm hsorted hsplit hm).mpr hlater,
      Note.releases_release.mpr (by rw [hpitch])⟩

theorem ended_of_perm (hperm : es.Perm t.events)
    (hsorted : es.Pairwise fun a b ↦ a.notAfter b = true) : Ended t es := by
  have hstruck : ∀ {before e after key}, es = before ++ e :: after → e.Strikes key →
      ∃ n ∈ t.notes, e = n.onset t.channel ∧ (t.channel, n.pitch) = key := by
    intro before e after key hsplit hstrikes
    exact exists_note_of_strikes (hperm.mem_iff.mp (by simp [hsplit])) hstrikes
  refine ⟨?_, ?_⟩
  · intro before e after key hsplit hstrikes
    obtain ⟨n, -, rfl, rfl⟩ := hstruck hsplit hstrikes
    exact exists_releases_iff hperm hsorted hsplit
  rw [List.eq_nil_iff_forall_not_mem]
  constructor
  · intro hsilent n hn
    have hmem := hperm.mem_iff.mpr (mem_track_events.mpr (.inr ⟨n, hn, .inl rfl⟩))
    -- the start has a place in the track, and what is struck there and not released sounds on
    obtain ⟨before, after, hsplit⟩ := List.append_of_mem hmem
    rw [← exists_releases_iff hperm hsorted hsplit]
    by_contra hnone
    refine hsilent (t.channel, n.pitch) (mem_sounding_iff.mpr
      ⟨before, _, after, hsplit, Note.strikes_onset.mpr rfl, ?_⟩)
    exact fun e he hreleases ↦ hnone ⟨e, he, hreleases⟩
  · intro hended key hkey
    obtain ⟨before, e, after, hsplit, hstrikes, hafter⟩ := mem_sounding_iff.mp hkey
    obtain ⟨n, hn, rfl, rfl⟩ := hstruck hsplit hstrikes
    obtain ⟨e, he, hreleases⟩ := (exists_releases_iff hperm hsorted hsplit).mpr (hended n hn)
    exact hafter e he hreleases

end

/-! ## The file of a score

In a score that was compiled, no note starts before the start of the score or lasts less than
nothing; so there are no ticks below zero, and its file is read back. -/

section

variable {p : Playback} {s : Score} {a : Arrangement}

/-- The notes of a score that goes forward have no ticks before the start. -/
theorem ticks_nonneg (hp : p.check = .ok p) (hforward : ∀ e ∈ s.events, e.Forward)
    (ha : Arrangement.ofScore p s = .ok a) :
    ∀ t ∈ a.tracks, ∀ n ∈ t.notes, 0 ≤ n.tick ∧ 0 ≤ n.tick + n.ticks := by
  intro t ht n hn
  obtain ⟨e, he, -, -, hsounds⟩ := exists_event_of_mem_notes hp ha ht hn
  obtain ⟨-, x, hx, htick, -⟩ := p.ticks_ok hp (hforward e he).1 hsounds.tick
  obtain ⟨-, y, hy, hticks, -⟩ := p.ticks_ok hp (hforward e he).2 hsounds.ticks
  have htick : 0 ≤ n.tick := htick ▸ Int.floor_nonneg.mpr hx
  have hticks : 0 ≤ n.ticks := hticks ▸ Int.floor_nonneg.mpr hy
  exact ⟨htick, Int.add_nonneg htick hticks⟩

/-- **Notes that end.**  In the file of a score, a note ends behind its start if and only if some
note of its pitch, it or another one, ends at a later tick than that of the start.  So nothing
sounds on behind the last event if every note lasts a tick at least.  That is so of every file, also
of one with pauses that only a generous reader takes, and a reader by the standard that takes the
file finds the same in it. -/
theorem ended_ofText {defaults : Defaults} {text : String} {bs : List UInt8}
    (hdefaults : defaults.check = .ok defaults) (hp : p.check = .ok p)
    (hs : (Score.ofText defaults text).1 = .ok s) (ha : Arrangement.ofScore p s = .ok a)
    (hbs : a.fileBytes = .ok bs) :
    ∃ f, StandardFile.readWith? none bs = some f ∧
      (∀ f', StandardFile.read? bs = some f' → f' = f) ∧ ∀ i t, a.tracks[i]? = some t →
      ∃ es, f.tracks[i + 2]? = some es ∧ Ended t es ∧
        ((∀ e ∈ s.events, ∀ ticks, p.ticks e.duration = .ok ticks → 0 < ticks) →
          sounding es = []) := by
  have hforward : ∀ e ∈ s.events, e.Forward := by
    rw [Score.ofText_fst] at hs
    obtain ⟨d, hd, rfl⟩ := map_eq_ok hs
    exact Draft.forward_ofText hdefaults hd
  have hticks := ticks_nonneg hp hforward ha
  refine ⟨a.file, readWith?_none_arrangement hp ha hticks hbs, fun f' hf' ↦
    eq_file_of_read? hp ha hticks hbs hf', fun i t ht ↦ ?_⟩
  have hended := ended_of_perm (Event.sort_perm t.events) (Event.pairwise_sort t.events)
  refine ⟨_, Arrangement.file_tracks_getElem? ht, hended, fun hlong ↦
    hended.silent.mpr fun n hn ↦ ⟨n, hn, rfl, ?_⟩⟩
  obtain ⟨e, he, -, -, hsounds⟩ :=
    exists_event_of_mem_notes hp ha (List.mem_of_getElem? ht) hn
  have := hlong e he n.ticks hsounds.ticks
  omega

end

/-- One note of a quarter at the tempo of the playback. -/
def quarter : String := "m 1\np: c4"

theorem ended_ofText_quarter : ∃ s a bs f t es, Defaults.check {} = .ok {} ∧
    Playback.check {} = .ok {} ∧ (Score.ofText {} quarter).1 = .ok s ∧
    Arrangement.ofScore {} s = .ok a ∧ a.fileBytes = .ok bs ∧
    StandardFile.readWith? none bs = some f ∧ StandardFile.read? bs = some f ∧
    a.tracks[0]? = some t ∧ t.notes = [⟨60, 0, 960, 80⟩] ∧ f.tracks[2]? = some es ∧ Ended t es ∧
    sounding es = [] := by
  obtain ⟨s, hs, hshown⟩ := exists_ok_of_any (x := (Score.ofText {} quarter).1) (f := fun s ↦
    (∀ e ∈ s.events, (Playback.ticks {} e.duration).toOption = some 960) ∧
    (Arrangement.ofScore {} s).toOption.any fun a ↦
      (a.tracks.map fun t ↦ t.notes) = [[⟨60, 0, 960, 80⟩]] ∧
      a.events = [[⟨0, .tempo 500000⟩], [],
        [⟨0, .trackName (chunkName "p")⟩, ⟨0, .noteOn 0 60 80⟩, ⟨960, .noteOff 0 60 80⟩]])
    (by decide +kernel)
  obtain ⟨hlong, harranged⟩ := of_decide_eq_true hshown
  obtain ⟨a, ha, hshown⟩ := exists_ok_of_any harranged
  obtain ⟨hnotes, hevents⟩ := of_decide_eq_true hshown
  obtain ⟨t, htracks, htnotes⟩ := List.map_eq_singleton_iff.mp hnotes
  have ht : a.tracks[0]? = some t := by rw [htracks]; rfl
  have hsorted : a.events.map Event.sort = a.events := by
    rw [hevents]
    cbv
  obtain ⟨bs, hbs, hread⟩ : ∃ bs, a.fileBytes = .ok bs ∧
      (StandardFile.read? bs).isSome = true := by
    rw [Arrangement.fileBytes, fileBytes_eq, hsorted, hevents]
    exact exists_ok_of_any (by decide +kernel)
  obtain ⟨f, hf, hsame, htracks⟩ :=
    ended_ofText Defaults.check_default Playback.check_default hs ha hbs
  obtain ⟨f', hf'⟩ := Option.isSome_iff_exists.mp hread
  obtain rfl := hsame f' hf'
  obtain ⟨es, hes, hended, hsilent⟩ := htracks 0 t ht
  refine ⟨s, a, bs, f', t, es, Defaults.check_default, Playback.check_default, hs, ha, hbs, hf, hf',
    ht, htnotes, hes, hended, hsilent fun e he ticks hticks ↦ ?_⟩
  have hsome := hlong e he
  rw [hticks] at hsome
  obtain rfl := Option.some.inj hsome
  decide

/-! ## A note that does not end

At a tempo of a million a quarter lasts 60 microseconds, which is less than a tick of half a
millisecond. -/

/-- One note, shorter than a tick. -/
def spark : String := "tempo: 1000000\nm 1\np: c4"

/-- The note starts and lasts, but its end comes before its start. -/
theorem sounding_spark : ∃ s a bs f es, (Score.ofText {} spark).1 = .ok s ∧
    (∀ e ∈ s.events, e.start.isFinite = true ∧ e.duration.isFinite = true ∧ 0 < e.duration) ∧
    Arrangement.ofScore {} s = .ok a ∧ a.fileBytes = .ok bs ∧ StandardFile.read? bs = some f ∧
    f.tracks[2]? = some es ∧
    es = [⟨0, .trackName (chunkName "p")⟩, ⟨0, .noteOff 0 60 80⟩, ⟨0, .noteOn 0 60 80⟩] ∧
    sounding es = [(0, 60)] := by
  obtain ⟨s, hs, hshown⟩ := exists_ok_of_any (x := (Score.ofText {} spark).1) (f := fun s ↦
    (∀ e ∈ s.events, e.start.isFinite = true ∧ e.duration.isFinite = true ∧ 0 < e.duration) ∧
    (Arrangement.ofScore {} s).toOption.any fun a ↦
      a.events = [[⟨0, .tempo 500000⟩], [],
        [⟨0, .trackName (chunkName "p")⟩, ⟨0, .noteOn 0 60 80⟩, ⟨0, .noteOff 0 60 80⟩]])
    (by decide +kernel)
  obtain ⟨hfinite, harranged⟩ := of_decide_eq_true hshown
  obtain ⟨a, ha, hevents⟩ := exists_ok_of_any harranged
  have hevents := of_decide_eq_true hevents
  have hsorted : a.events.map Event.sort = [[⟨0, .tempo 500000⟩], [],
      [⟨0, .trackName (chunkName "p")⟩, ⟨0, .noteOff 0 60 80⟩, ⟨0, .noteOn 0 60 80⟩]] := by
    rw [hevents]
    cbv
  obtain ⟨bs, hbs, hread⟩ : ∃ bs, a.fileBytes = .ok bs ∧ decide (StandardFile.read? bs =
      some ⟨1, 960, [[⟨0, .tempo 500000⟩], [], [⟨0, .trackName (chunkName "p")⟩,
        ⟨0, .noteOff 0 60 80⟩, ⟨0, .noteOn 0 60 80⟩]]⟩) = true := by
    rw [Arrangement.fileBytes, fileBytes_eq, hsorted, hevents]
    exact exists_ok_of_any (by decide +kernel)
  exact ⟨s, a, bs, _, _, hs, hfinite, ha, hbs, of_decide_eq_true hread, rfl, rfl, rfl⟩

end TextScore.Midi
