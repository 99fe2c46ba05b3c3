import TextScore.Proofs.Midi.Arrangement
import TextScore.Proofs.Midi.RoundTrip
import TextScore.Score.Compile

/-!
# The file of an arrangement

The tracks of an arrangement can be read off its file.  Pitches, velocities and channels have room
in the bytes of their messages, since notes outside the MIDI range were left out, the velocity of
the playback was checked and there are sixteen channels; time differences are not negative, since
the events were sorted.

What is not checked is how long a pause may be.  A time difference is written in as many groups of
seven bits as it has, and from `2 ^ 28` ticks on that is one more than the standard allows.  At the
usual tempo such a pause lasts more than a day, but a score has it as soon as a block says that it
has that many measures, and there is no way to say it in one quantity.  So the file of an
arrangement is always what it should be to a reader that takes any number of groups, and a standard
MIDI file exactly if no pause is that long, and no text either.

The condition is stated of the arrangement and not of the file (`Arrangement.Compact`).  A pause is
the time between events that are next to each other when they are sorted, so it is not that of two
notes which are next to each other in the score: notes of other voices may sound in between.
Therefore the condition is that every tick, but zero, has another one a short time in front of it,
or the start.

## What is here

* `Arrangement.file` — what the file of an arrangement is read as.
* `Renders` — the notes of the tracks, one start and one end for each.
* `Arrangement.Compact` — no quantity in the file needs more than four bytes.
* `renders_fileBytes` — the file of an arrangement renders it, to whom it can be read.
* `unread_hush` — a score whose file is no standard MIDI file.
-/

set_option autoImplicit false

namespace TextScore.Midi

/-- The start of a note. -/
def Note.onset (channel : Nat) (n : Note) : Event := ⟨n.tick, .noteOn channel n.pitch n.velocity⟩

/-- The end of a note. -/
def Note.release (channel : Nat) (n : Note) : Event :=
  ⟨n.tick + n.ticks, .noteOff channel n.pitch n.velocity⟩

theorem Note.events_eq (channel : Nat) (n : Note) :
    n.events channel = [n.onset channel] ++ [n.release channel] := rfl

section

variable {p : Playback} {s : Score} {a : Arrangement}

theorem SoundsAs.fits {e : NoteEvent} {n : Note} (hp : p.check = .ok p)
    (he : e.isPlayable = true) (h : SoundsAs p e n) : n.pitch < 128 ∧ n.velocity < 128 := by
  have hvelocity := Playback.velocity_of_check hp
  rw [← h.velocity] at hvelocity
  rw [NoteEvent.isPlayable, h.pitch] at he
  simp only [Except.toOption, Option.any_some, decide_eq_true_eq] at he
  omega

/-- A note on a track is a note of the score that MIDI can play. -/
theorem exists_event_of_mem_notes (hp : p.check = .ok p) (h : Arrangement.ofScore p s = .ok a)
    {t : Track} (ht : t ∈ a.tracks) {n : Note} (hn : n ∈ t.notes) :
    ∃ e ∈ s.events, e.instrumentId = t.id ∧ e.isPlayable = true ∧ SoundsAs p e n := by
  obtain ⟨i, hi, rfl⟩ := List.mem_iff_getElem.mp hn
  have hnotes := forall₂_notes hp h ht
  have hi' := hnotes.length_eq.symm ▸ hi
  obtain ⟨hmem, howned⟩ := List.mem_filter.mp (List.getElem_mem hi')
  obtain ⟨hid, hplayable⟩ := Bool.and_eq_true_iff.mp howned
  exact ⟨_, hmem, beq_iff_eq.mp hid, hplayable, hnotes.get hi' hi⟩

theorem mem_track_events {t : Track} {e : Event} : e ∈ t.events ↔
    e = ⟨0, .trackName t.nameBytes⟩ ∨
      ∃ n ∈ t.notes, e = n.onset t.channel ∨ e = n.release t.channel := by
  simp [Track.events, Note.events_eq]

/-- The name and the notes of a track are in the file as they are. -/
theorem stored_track_events (t : Track) :
    (Event.sort t.events).map Event.stored = Event.sort t.events := by
  refine (List.map_congr_left fun e he ↦ ?_).trans (List.map_id _)
  have hmem := mem_track_events.mp ((Event.sort_perm _).mem_iff.mp he)
  rcases hmem with rfl | ⟨n, -, rfl | rfl⟩ <;> rfl

/-- The events of an arrangement have a place in a file. -/
theorem fits_events (hp : p.check = .ok p) (h : Arrangement.ofScore p s = .ok a)
    (hticks : ∀ t ∈ a.tracks, ∀ n ∈ t.notes, 0 ≤ n.tick ∧ 0 ≤ n.tick + n.ticks) :
    ∀ es ∈ a.events, ∀ e ∈ es, e.Fits := by
  intro es hes e he
  simp only [Arrangement.events, List.mem_cons, List.mem_map] at hes
  rcases hes with rfl | rfl | ⟨t, ht, rfl⟩
  · obtain rfl := List.mem_singleton.mp he
    exact ⟨le_rfl, trivial⟩
  · obtain ⟨text, -, rfl⟩ := List.mem_map.mp he
    exact ⟨le_rfl, trivial⟩
  · have hchannel : t.channel < 16 := by
      obtain ⟨i, hi⟩ := List.mem_iff_getElem?.mp ht
      rw [channel_eq h hi]
      exact Nat.lt_succ_of_le (channelOf_le i).1
    rcases mem_track_events.mp he with rfl | ⟨n, hn, hne⟩
    · exact ⟨le_rfl, trivial⟩
    obtain ⟨hon, hoff⟩ := hticks t ht n hn
    obtain ⟨e', -, -, hplayable, hsounds⟩ := exists_event_of_mem_notes hp h ht hn
    have hvalues := hsounds.fits hp hplayable
    rcases hne with rfl | rfl
    · exact ⟨hon, hchannel, hvalues⟩
    · exact ⟨hoff, hchannel, hvalues⟩

/-- What the file of an arrangement is read as: the tempo, the texts, and the tracks with their
events in order. -/
def Arrangement.file (a : Arrangement) : StandardFile :=
  ⟨1, 960, a.events.map fun es ↦ (Event.sort es).map Event.stored⟩

/-- The file of an arrangement is read, unless a quantity in it is too long. -/
theorem readWith?_arrangement {most? : Option Nat} (hmost : Admits most?) {bs : List UInt8}
    (hp : p.check = .ok p) (h : Arrangement.ofScore p s = .ok a)
    (hticks : ∀ t ∈ a.tracks, ∀ n ∈ t.notes, 0 ≤ n.tick ∧ 0 ≤ n.tick + n.ticks)
    (hbs : a.fileBytes = .ok bs) : StandardFile.readWith? most? bs =
      if a.events.all (isAdmitted most?) then some a.file else none :=
  StandardFile.readWith?_fileBytes hmost hbs (fits_events hp h hticks)

/-- Without a bound nothing is too long. -/
theorem isAdmitted_none (es : List Event) : isAdmitted none es = true :=
  List.all_eq_true.mpr fun _ _ ↦ rfl

theorem readWith?_none_arrangement {bs : List UInt8} (hp : p.check = .ok p)
    (h : Arrangement.ofScore p s = .ok a)
    (hticks : ∀ t ∈ a.tracks, ∀ n ∈ t.notes, 0 ≤ n.tick ∧ 0 ≤ n.tick + n.ticks)
    (hbs : a.fileBytes = .ok bs) : StandardFile.readWith? none bs = some a.file := by
  rw [readWith?_arrangement .any hp h hticks hbs,
    if_pos (List.all_eq_true.mpr fun es _ ↦ isAdmitted_none es)]

/-- A reader by the standard finds nothing else in the file, if it finds anything. -/
theorem eq_file_of_read? {bs : List UInt8} (hp : p.check = .ok p)
    (h : Arrangement.ofScore p s = .ok a)
    (hticks : ∀ t ∈ a.tracks, ∀ n ∈ t.notes, 0 ≤ n.tick ∧ 0 ≤ n.tick + n.ticks)
    (hbs : a.fileBytes = .ok bs) {f : StandardFile} (hf : StandardFile.read? bs = some f) :
    f = a.file := by
  rw [StandardFile.read?, readWith?_arrangement .standard hp h hticks hbs] at hf
  split at hf
  case isTrue => exact (Option.some.inj hf).symm
  case isFalse => cases hf

theorem Arrangement.length_file_tracks (a : Arrangement) :
    a.file.tracks.length = a.tracks.length + 2 := by
  simp [file, events]

/-- Behind the tempo and the texts stand the tracks in order. -/
theorem Arrangement.file_tracks_getElem? {i : Nat} {t : Track} (ht : a.tracks[i]? = some t) :
    a.file.tracks[i + 2]? = some (Event.sort t.events) := by
  simp [file, events, ht, stored_track_events]

/-- A file that holds the tracks of an arrangement. -/
structure Renders (a : Arrangement) (f : StandardFile) : Prop where
  /-- All tracks are played at once. -/
  format : f.format = 1
  /-- The ticks of a quarter note. -/
  division : f.division = 960
  /-- Two tracks are in front of those of the instruments. -/
  length : f.tracks.length = a.tracks.length + 2
  /-- The name of a track is written with one byte for each character. -/
  names : ∀ t ∈ a.tracks, latin1 t.name = .ok t.nameBytes
  /-- A track holds its name at the start and, in the order of their ticks, one start and one end of
  every note, and nothing else. -/
  tracks : ∀ i t, a.tracks[i]? = some t → ∃ es, f.tracks[i + 2]? = some es ∧
    (es.Pairwise fun e₁ e₂ ↦ e₁.tick ≤ e₂.tick) ∧
    es.Perm (⟨0, .trackName t.nameBytes⟩ ::
      (t.notes.map (Note.onset t.channel) ++ t.notes.map (Note.release t.channel)))

theorem track_events_perm (t : Track) : t.events.Perm (⟨0, .trackName t.nameBytes⟩ ::
    (t.notes.map (Note.onset t.channel) ++ t.notes.map (Note.release t.channel))) := by
  refine .cons _ ?_
  rw [List.map_eq_flatMap, List.map_eq_flatMap]
  exact (List.flatMap_append_perm t.notes (fun n ↦ [n.onset t.channel]) fun n ↦
    [n.release t.channel]).symm

theorem Arrangement.renders_file (ha : Arrangement.ofScore p s = .ok a) : Renders a a.file where
  format := rfl
  division := rfl
  length := a.length_file_tracks
  names t ht := by
    obtain ⟨i, hi⟩ := List.mem_iff_getElem?.mp ht
    obtain ⟨xs, -, -, -, hnames⟩ := ofScore_ok ha
    exact (hnames i t hi).2.1
  tracks i t ht := ⟨_, file_tracks_getElem? ht, Event.pairwise_tick_sort t.events,
    (Event.sort_perm t.events).trans (track_events_perm t)⟩

/-! ## Short quantities

Whether all quantities are short is a question about bytes; here it becomes one about ticks and
texts. -/

/-- The first number that has no quantity of four bytes. -/
def quantityBound : Nat := 2 ^ 28

/-- None of some ticks comes too long behind the one before: a short time in front of each there is
another one, or the start. -/
def Paced (ticks : List Int) : Prop :=
  ∀ x ∈ ticks, 0 < x → ∃ y ∈ 0 :: ticks, y < x ∧ x < y + quantityBound

/-- The ticks of a track: the starts and the ends of its notes. -/
def Track.ticks (t : Track) : List Int := t.notes.flatMap fun n ↦ [n.tick, n.tick + n.ticks]

/-- No text is too long for a quantity of four bytes, and no pause on a track either. -/
structure Arrangement.Compact (a : Arrangement) : Prop where
  /-- The title and the composer. -/
  texts : ∀ t ∈ a.texts, t.length < quantityBound
  /-- The names of the tracks. -/
  names : ∀ t ∈ a.tracks, t.nameBytes.length < quantityBound
  /-- The times between the events of a track. -/
  pauses : ∀ t ∈ a.tracks, Paced t.ticks

theorem admits_four_iff {n : Nat} :
    admits (some 4) (quantity n).length = true ↔ n < quantityBound := by
  rw [admits, Option.all_some, decide_eq_true_iff, length_quantity_le_iff]
  rfl

/-- A tick is the one to start from, or comes a short time behind that one or another. -/
def Reached (tick : Int) (ticks : List Int) (x : Int) : Prop :=
  x = tick ∨ ∃ y ∈ tick :: ticks, y < x ∧ x < y + quantityBound

section

variable {tick first x : Int} {ticks : List Int}

/-- The first tick has only the one to start from in front of it. -/
theorem reached_first_iff (hle : tick ≤ first) (hfirst : ∀ y ∈ ticks, first ≤ y) :
    Reached tick (first :: ticks) first ↔ first - tick < quantityBound := by
  have hbound : (0 : Int) < quantityBound := by decide
  constructor
  · rintro (rfl | ⟨y, hy, hlt, hshort⟩)
    · omega
    · simp only [List.mem_cons] at hy
      rcases hy with rfl | rfl | hy
      · omega
      · omega
      · have := hfirst y hy
        omega
  · intro hshort
    rcases hle.eq_or_lt with rfl | hlt
    · exact .inl rfl
    · exact .inr ⟨tick, List.mem_cons_self, hlt, by omega⟩

/-- Behind the first tick, nothing is a short time behind the tick to start from that is not a short
time behind the first one, or at once with it. -/
theorem reached_cons_iff (hle : tick ≤ first) (hshort : first - tick < quantityBound)
    (hx : first ≤ x) : Reached tick (first :: ticks) x ↔ Reached first ticks x := by
  constructor
  · rintro (rfl | ⟨y, hy, hlt, hnear⟩)
    · exact .inl (le_antisymm hle hx)
    · rcases List.mem_cons.mp hy with rfl | hy
      · rcases hx.eq_or_lt with rfl | hx
        · exact .inl rfl
        · exact .inr ⟨first, List.mem_cons_self, hx, by omega⟩
      · exact .inr ⟨y, hy, hlt, hnear⟩
  · rintro (rfl | ⟨y, hy, hlt, hnear⟩)
    · rcases hle.eq_or_lt with rfl | hlt
      · exact .inl rfl
      · exact .inr ⟨tick, List.mem_cons_self, hlt, by omega⟩
    · exact .inr ⟨y, List.mem_cons_of_mem tick hy, hlt, hnear⟩

/-- In order, every time difference is short if every tick has another one, or the one to start
from, a short time in front of it. -/
theorem forall_gapsFrom_lt_iff {es : List Event} (hfirst : ∀ e ∈ es, tick ≤ e.tick)
    (hsorted : es.Pairwise fun a b ↦ a.tick ≤ b.tick) :
    (∀ gap ∈ Event.gapsFrom tick es, gap < quantityBound) ↔
      ∀ e ∈ es, Reached tick (es.map Event.tick) e.tick := by
  induction es generalizing tick with
  | nil => simp [Event.gapsFrom]
  | cons e es ih =>
    rw [List.forall_mem_cons] at hfirst
    rw [List.pairwise_cons] at hsorted
    rw [Event.gapsFrom_cons, List.forall_mem_cons, List.forall_mem_cons, List.map_cons,
      reached_first_iff hfirst.1 (List.forall_mem_map.mpr hsorted.1), ih hsorted.1 hsorted.2]
    refine and_congr_right fun hshort ↦ forall₂_congr fun e' he' ↦ ?_
    exact (reached_cons_iff hfirst.1 hshort (hsorted.1 e' he')).symm

end

theorem forall_mem_zip_iff {α β : Type} {as : List α} {bs : List β} (h : as.length = bs.length)
    {P : α → Prop} {Q : β → Prop} :
    (∀ x ∈ as.zip bs, P x.1 ∧ Q x.2) ↔ (∀ a ∈ as, P a) ∧ ∀ b ∈ bs, Q b := by
  constructor
  · intro hall
    refine ⟨fun a ha ↦ ?_, fun b hb ↦ ?_⟩
    · rw [← List.map_fst_zip h.le] at ha
      obtain ⟨x, hx, rfl⟩ := List.mem_map.mp ha
      exact (hall x hx).1
    · rw [← List.map_snd_zip h.ge] at hb
      obtain ⟨x, hx, rfl⟩ := List.mem_map.mp hb
      exact (hall x hx).2
  · intro hall x hx
    obtain ⟨ha, hb⟩ := List.of_mem_zip hx
    exact ⟨hall.1 _ ha, hall.2 _ hb⟩

/-- The quantities of a track are short if its texts and its pauses are. -/
theorem isAdmitted_four_iff {es : List Event} (hticks : ∀ e ∈ es, 0 ≤ e.tick) :
    isAdmitted (some 4) es = true ↔
      (∀ e ∈ es, e.message.data.length < quantityBound) ∧ Paced (es.map Event.tick) := by
  have hmem {e : Event} : e ∈ Event.sort es ↔ e ∈ es := (Event.sort_perm es).mem_iff
  have hpair (x : Event × Int) : Event.isAdmitted (some 4) x = true ↔
      x.1.message.data.length < quantityBound ∧ x.2 < quantityBound := by
    rw [Event.isAdmitted, Bool.and_eq_true, admits_four_iff, admits_four_iff, and_comm]
    exact and_congr_right fun _ ↦ by omega
  have hlength : (Event.sort es).length = (Event.gapsFrom 0 (Event.sort es)).length := by
    simp [Event.gapsFrom]
  have hpaced := forall_gapsFrom_lt_iff (fun e he ↦ hticks e (hmem.mp he))
    (Event.pairwise_tick_sort es)
  have hmem' {y : Int} : y ∈ (Event.sort es).map Event.tick ↔ y ∈ es.map Event.tick :=
    ((Event.sort_perm es).map Event.tick).mem_iff
  rw [isAdmitted, Event.gaps_eq, List.all_eq_true, forall₂_congr fun x _ ↦ hpair x,
    forall_mem_zip_iff hlength (P := fun e ↦ e.message.data.length < quantityBound)
      (Q := fun gap ↦ gap < quantityBound), hpaced, Paced, List.forall_mem_map]
  -- the events were sorted, but which ticks there are does not depend on the order
  simp only [Reached, hmem, List.mem_cons, hmem']
  refine and_congr_right fun _ ↦ forall₂_congr fun e he ↦ ?_
  have := hticks e he
  constructor
  · intro h hpos
    exact h.resolve_left hpos.ne'
  · intro h
    rcases this.eq_or_lt with heq | hpos
    · exact .inl heq.symm
    · exact .inr (h hpos)

theorem paced_of_forall_eq_zero {ticks : List Int} (h : ∀ x ∈ ticks, x = 0) : Paced ticks := by
  intro x hx hpos
  exact absurd (h x hx) hpos.ne'

theorem paced_cons_zero_iff {ticks : List Int} : Paced (0 :: ticks) ↔ Paced ticks := by
  simp [Paced]

theorem map_tick_track_events (t : Track) : t.events.map Event.tick = 0 :: t.ticks := by
  rw [Track.events, List.map_cons, List.map_flatMap]
  rfl

theorem isAdmitted_tempo (microseconds : Int) :
    isAdmitted (some 4) [⟨0, .tempo microseconds⟩] = true := by
  have hnone : ([] : List UInt8).length < quantityBound := by decide
  rw [isAdmitted_four_iff (List.forall_mem_singleton.mpr le_rfl)]
  exact ⟨List.forall_mem_singleton.mpr hnone, paced_of_forall_eq_zero (by simp)⟩

/-- The file has short quantities if the arrangement is compact. -/
theorem Arrangement.isAdmitted_events_iff
    (hticks : ∀ t ∈ a.tracks, ∀ n ∈ t.notes, 0 ≤ n.tick ∧ 0 ≤ n.tick + n.ticks) :
    a.events.all (isAdmitted (some 4)) = true ↔ a.Compact := by
  have hnone : ([] : List UInt8).length < quantityBound := by decide
  have htexts : isAdmitted (some 4) (a.texts.map fun t ↦ ⟨0, .text t⟩) = true ↔
      ∀ t ∈ a.texts, t.length < quantityBound := by
    rw [isAdmitted_four_iff (by simp), and_iff_left (paced_of_forall_eq_zero (by simp)),
      List.forall_mem_map]
    rfl
  have htrack (t : Track) (ht : t ∈ a.tracks) : isAdmitted (some 4) t.events = true ↔
      t.nameBytes.length < quantityBound ∧ Paced t.ticks := by
    rw [isAdmitted_four_iff, map_tick_track_events, paced_cons_zero_iff]
    · refine and_congr_left fun _ ↦ ⟨fun h ↦ h _ List.mem_cons_self, fun h e he ↦ ?_⟩
      rcases mem_track_events.mp he with rfl | ⟨n, -, rfl | rfl⟩
      · exact h
      · exact hnone
      · exact hnone
    · intro e he
      rcases mem_track_events.mp he with rfl | ⟨n, hn, rfl | rfl⟩
      · exact le_rfl
      · exact (hticks t ht n hn).1
      · exact (hticks t ht n hn).2
  -- the tempo has a quantity of one byte, the texts are all at tick zero, the rest are the tracks
  rw [events, List.all_cons, List.all_cons, isAdmitted_tempo, Bool.true_and, Bool.and_eq_true,
    htexts, List.all_eq_true, List.forall_mem_map, forall₂_congr htrack, forall₂_and]
  exact ⟨fun h ↦ ⟨h.1, h.2.1, h.2.2⟩, fun h ↦ ⟨h.texts, h.names, h.pauses⟩⟩

instance (ticks : List Int) : Decidable (Paced ticks) :=
  inferInstanceAs
    (Decidable (∀ x ∈ ticks, 0 < x → ∃ y ∈ 0 :: ticks, y < x ∧ x < y + quantityBound))

instance : Decidable a.Compact :=
  decidable_of_iff ((∀ t ∈ a.texts, t.length < quantityBound) ∧
      (∀ t ∈ a.tracks, t.nameBytes.length < quantityBound) ∧ ∀ t ∈ a.tracks, Paced t.ticks)
    ⟨fun h ↦ ⟨h.1, h.2.1, h.2.2⟩, fun h ↦ ⟨h.texts, h.names, h.pauses⟩⟩

/-- **Files are read back.**  The file of an arrangement renders it, if no note starts or ends
before the start of the file: a reader that takes quantities of any length finds in it what it
should.  By the standard the same is read if the arrangement is compact, and else nothing.  So the
file of an arrangement that is not compact, which is written without complaint, is no standard MIDI
file; there is such a score in `unread_hush`. -/
theorem renders_fileBytes {bs : List UInt8} (hp : p.check = .ok p)
    (ha : Arrangement.ofScore p s = .ok a)
    (hticks : ∀ t ∈ a.tracks, ∀ n ∈ t.notes, 0 ≤ n.tick ∧ 0 ≤ n.tick + n.ticks)
    (hbs : a.fileBytes = .ok bs) : ∃ f, Renders a f ∧ StandardFile.readWith? none bs = some f ∧
      StandardFile.read? bs = if a.Compact then some f else none := by
  refine ⟨a.file, a.renders_file ha, readWith?_none_arrangement hp ha hticks hbs, ?_⟩
  rw [StandardFile.read?, readWith?_arrangement .standard hp ha hticks hbs]
  exact if_congr (a.isAdmitted_events_iff hticks) rfl rfl

end

theorem renders_fileBytes_wedding : ∃ a bs f, Playback.check {} = .ok {} ∧
    Arrangement.ofScore {} wedding = .ok a ∧
    (∀ t ∈ a.tracks, ∀ n ∈ t.notes, 0 ≤ n.tick ∧ 0 ≤ n.tick + n.ticks) ∧
    a.fileBytes = .ok bs ∧ Renders a f ∧ StandardFile.readWith? none bs = some f ∧
    a.Compact ∧ StandardFile.read? bs = some f := by
  obtain ⟨a, ha, hshown⟩ := exists_ok_of_any (x := Arrangement.ofScore {} wedding) (f := fun a ↦
    (∀ t ∈ a.tracks, ∀ n ∈ t.notes, 0 ≤ n.tick ∧ 0 ≤ n.tick + n.ticks) ∧ a.Compact ∧
    a.events = [[⟨0, .tempo 500000⟩], [], [⟨0, .trackName (chunkName "Oboe")⟩],
      [⟨0, .trackName (chunkName "Piano")⟩, ⟨0, .noteOn 1 60 80⟩, ⟨1920, .noteOff 1 60 80⟩],
      [⟨0, .trackName (chunkName "Aunt")⟩, ⟨960, .noteOn 2 64 80⟩, ⟨2880, .noteOff 2 64 80⟩,
        ⟨1920, .noteOn 2 67 80⟩, ⟨3840, .noteOff 2 67 80⟩]])
    (by decide +kernel)
  obtain ⟨hticks, hcompact, hevents⟩ := of_decide_eq_true hshown
  have hsorted : a.events.map Event.sort = [[⟨0, .tempo 500000⟩], [],
      [⟨0, .trackName (chunkName "Oboe")⟩],
      [⟨0, .trackName (chunkName "Piano")⟩, ⟨0, .noteOn 1 60 80⟩, ⟨1920, .noteOff 1 60 80⟩],
      [⟨0, .trackName (chunkName "Aunt")⟩, ⟨960, .noteOn 2 64 80⟩, ⟨1920, .noteOn 2 67 80⟩,
        ⟨2880, .noteOff 2 64 80⟩, ⟨3840, .noteOff 2 67 80⟩]] := by
    rw [hevents]
    cbv
  obtain ⟨bs, hbs⟩ : ∃ bs, a.fileBytes = .ok bs := by
    rw [Arrangement.fileBytes, fileBytes_eq, hsorted, hevents]
    exact exists_ok (by decide +kernel)
  obtain ⟨f, hrenders, hany, hread⟩ := renders_fileBytes Playback.check_default ha hticks hbs
  rw [if_pos hcompact] at hread
  exact ⟨a, bs, f, Playback.check_default, ha, hticks, hbs, hrenders, hany, hcompact, hread⟩

/-! ## A file that is not read

The rest lasts 140000 measures of two seconds each, and `280000 * 1920` is above `2 ^ 28`. -/

/-- A note behind a rest of 140000 measures. -/
def hush : String := "m 1-140000\nm 2\np: c4"

/-- The note starts at a tick that has no quantity of four bytes, and its file is none. -/
theorem unread_hush : ∃ s a bs, (Score.ofText {} hush).1 = .ok s ∧
    Arrangement.ofScore {} s = .ok a ∧
    (a.tracks.map fun t ↦ t.notes) = [[⟨60, 537600000, 960, 80⟩]] ∧
    a.fileBytes = .ok bs ∧ StandardFile.read? bs = none := by
  obtain ⟨s, hs, harranged⟩ := exists_ok_of_any (x := (Score.ofText {} hush).1) (f := fun s ↦
    (Arrangement.ofScore {} s).toOption.any fun a ↦
      (a.tracks.map fun t ↦ t.notes) = [[⟨60, 537600000, 960, 80⟩]] ∧
      a.events = [[⟨0, .tempo 500000⟩], [], [⟨0, .trackName (chunkName "p")⟩,
        ⟨537600000, .noteOn 0 60 80⟩, ⟨537600960, .noteOff 0 60 80⟩]])
    (by decide +kernel)
  obtain ⟨a, ha, hshown⟩ := exists_ok_of_any harranged
  obtain ⟨hnotes, hevents⟩ := of_decide_eq_true hshown
  have hsorted : a.events.map Event.sort = a.events := by
    rw [hevents]
    cbv
  obtain ⟨bs, hbs, hread⟩ : ∃ bs, a.fileBytes = .ok bs ∧
      (StandardFile.read? bs).isNone = true := by
    rw [Arrangement.fileBytes, fileBytes_eq, hsorted, hevents]
    exact exists_ok_of_any (by decide +kernel)
  exact ⟨s, a, bs, hs, ha, hnotes, hbs, Option.isNone_iff_eq_none.mp hread⟩

end TextScore.Midi
