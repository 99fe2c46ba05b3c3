import Mathlib
import TextScore.Midi.Arrangement
import TextScore.Proofs.Ensemble.Declared

/-!
# Tracks and their notes

The tracks of a file are the instruments of the layout in the order of their first rows, and behind
them those that only occur in notes, in the order of their first notes.  Every note of the score
that MIDI can play is one note on the track of its instrument; all others are counted.

The score may be any: rows may stand in several groups, notes may be of instruments that no row has,
and an instrument may have nothing but notes that cannot be played.  So the tracks are not the rows,
and that there is a track for every note has to be shown.  Rows and notes are taken as one list of
namings, of which the first for each id is kept.  All that is said of the tracks follows from that:
their order is that of first occurrences, no id has two, and a track has the name of the first
naming of its id.

The notes are arranged one by one and then sorted into tracks by id, keeping their order.  Since ids
are distinct and every note has its track, nothing is lost and nothing is there twice, which is said
by counting.

What is stated is a structure whose fields speak of the score alone, and not of how it is arranged
(`Arranges`).  It includes the warning as the user reads it, with the number in it.

## What is here

* `SoundsAs` — a note of the file is a note of the score.
* `map_id_foldl_addRow`, `find?_foldl_addRow` — first occurrences are kept.
* `forall₂_filter_played` — the notes of one instrument.
* `channelOf_le`, `channelOf_eq_iff` — the channels.
* `Arranges` — what is in the tracks, their order, names and channels.
* `arranges_ofScore` — every score that can be arranged is arranged so.

There are fifteen channels for melodies, so with more tracks than these some share a channel.  The
one in between that is for percussion is left out.
-/

set_option autoImplicit false

namespace TextScore

/-- MIDI has a number for the pitch of the note. -/
def NoteEvent.isPlayable (e : NoteEvent) : Bool :=
  e.midiNote.toOption.any fun pitch ↦ 0 ≤ pitch ∧ pitch ≤ 127

namespace Midi

/-! ## The instruments of the tracks

`layoutIds` and `remainingIds` are what the order of the tracks is made of, `namings` is what their
names come from. -/

/-- Everything that gives an instrument a name: the rows of the layout, then the notes. -/
def namings (s : Score) : List Row :=
  s.groups.flatMap GroupLayout.rows ++ s.events.map fun e ↦ ⟨e.instrumentId, e.instrumentName⟩

/-- The ids in the layout, row by row. -/
def layoutIds (s : Score) : List String := (s.groups.flatMap GroupLayout.rows).map Row.id

/-- The ids of the notes that are not in the layout, note by note. -/
def remainingIds (s : Score) : List String :=
  (s.events.map NoteEvent.instrumentId).filter (· ∉ layoutIds s)

theorem trackRows_eq (s : Score) : trackRows s = (namings s).foldl addRow [] := by
  rw [trackRows, namings, List.foldl_append]

theorem any_id_beq {rows : List Row} {id : String} :
    (rows.any fun r ↦ r.id == id) = true ↔ id ∈ rows.map Row.id := by
  simp

/-- A row more is a first occurrence if its id did not occur before. -/
theorem map_id_foldl_addRow (rows : List Row) :
    (rows.foldl addRow []).map Row.id = (rows.map Row.id).eraseDups := by
  induction rows using List.reverseRecOn with
  | nil => rfl
  | append_singleton rows r ih =>
    rw [List.foldl_append, List.foldl_cons, List.foldl_nil, addRow, List.map_append,
      List.map_singleton, eraseDups_concat]
    have hmem : ((rows.foldl addRow []).any fun q ↦ q.id == r.id) = true ↔
        r.id ∈ rows.map Row.id := by
      rw [any_id_beq, ih, List.mem_eraseDups]
    by_cases h : r.id ∈ rows.map Row.id
    · rw [if_pos (hmem.mpr h), if_pos h, ih]
    · rw [if_neg (mt hmem.mp h), if_neg h, List.map_append, ih, List.map_singleton]

/-- The rows that are kept are the first ones of their ids. -/
theorem find?_foldl_addRow (rows : List Row) (id : String) :
    (rows.foldl addRow []).find? (·.id == id) = rows.find? (·.id == id) := by
  induction rows using List.reverseRecOn with
  | nil => rfl
  | append_singleton rows r ih =>
    rw [List.foldl_append, List.foldl_cons, List.foldl_nil, addRow, List.find?_append, ← ih]
    by_cases h : ((rows.foldl addRow []).any fun q ↦ q.id == r.id) = true
    · rw [if_pos h]
      by_cases hid : r.id = id
      · subst hid
        rw [Option.or_of_isSome (List.find?_isSome.mpr (List.any_eq_true.mp h))]
      · simp [hid]
    · rw [if_neg h, List.find?_append]

theorem find?_id_of_mem {rows : List Row} (h : (rows.map Row.id).Nodup) {r : Row} (hr : r ∈ rows) :
    rows.find? (·.id == r.id) = some r := by
  induction rows with
  | nil => cases hr
  | cons q rows ih =>
    rw [List.map_cons, List.nodup_cons] at h
    rcases List.mem_cons.mp hr with rfl | hr
    · simp
    · have hne : (q.id == r.id) = false :=
        beq_eq_false_iff_ne.mpr fun hid ↦ h.1 (hid ▸ List.mem_map_of_mem hr)
      rw [List.find?_cons_of_neg (by simp [hne]), ih h.2 hr]

/-- No id has two tracks. -/
theorem nodup_foldl_addRow (rows : List Row) : ((rows.foldl addRow []).map Row.id).Nodup := by
  induction rows using List.reverseRecOn with
  | nil => exact List.nodup_nil
  | append_singleton rows r ih =>
    rw [List.foldl_append, List.foldl_cons, List.foldl_nil, addRow]
    split
    case isTrue => exact ih
    case isFalse h =>
      rw [any_id_beq] at h
      rw [List.map_append, List.map_singleton]
      rw [← List.concat_eq_append]
      exact List.Nodup.concat h ih

theorem map_id_trackRows (s : Score) :
    (trackRows s).map Row.id = (layoutIds s).eraseDups ++ (remainingIds s).eraseDups := by
  have hevents : (s.events.map fun e ↦ (⟨e.instrumentId, e.instrumentName⟩ : Row)).map Row.id =
      s.events.map NoteEvent.instrumentId := List.map_map
  rw [trackRows_eq, map_id_foldl_addRow, namings, List.map_append, hevents,
    eraseDups_append_filter, remainingIds, layoutIds]
  simp only [List.mem_eraseDups]

theorem mem_trackRows_of_event {s : Score} {e : NoteEvent} (he : e ∈ s.events) :
    e.instrumentId ∈ (trackRows s).map Row.id := by
  rw [trackRows_eq, map_id_foldl_addRow, List.mem_eraseDups, namings, List.map_append,
    List.mem_append]
  exact .inr (List.mem_map.mpr ⟨_, List.mem_map_of_mem he, rfl⟩)

/-! ## Notes

A note that cannot be played has no place in the file, even if its times have no ticks; so it cannot
make the arranging fail. -/

/-- A note of the file is a note of the score: its pitch, its times in ticks, and the velocity of
the playback. -/
structure SoundsAs (p : Playback) (e : NoteEvent) (n : Note) : Prop where
  /-- The MIDI number. -/
  pitch : e.midiNote = .ok n.pitch
  /-- The tick of the start. -/
  tick : p.ticks e.start = .ok n.tick
  /-- The length in ticks. -/
  ticks : p.ticks e.duration = .ok n.ticks
  /-- The velocity. -/
  velocity : n.velocity = p.velocity

theorem Playback.velocity_of_check {p : Playback} (h : p.check = .ok p) :
    0 ≤ p.velocity ∧ p.velocity ≤ 127 := by
  rw [check] at h
  split_ifs at h with htempo hvelocity
  exact hvelocity

theorem Playback.check_default : Playback.check {} = .ok {} := by
  rw [check, if_neg (by decide), if_pos (by decide)]

section

variable {p : Playback} {e : NoteEvent} {es : List NoteEvent} {x? : Option (String × Note)}
  {xs : List (Option (String × Note))}

/-- Every note has a number, and it decides whether the note is in the file. -/
theorem exists_midiNote (h : noteOf p e = .ok x?) :
    ∃ pitch, e.midiNote = .ok pitch ∧ (e.isPlayable = true ↔ 0 ≤ pitch ∧ pitch ≤ 127) := by
  obtain ⟨pitch, hpitch, -⟩ := bind_eq_ok h
  refine ⟨pitch, hpitch, ?_⟩
  rw [NoteEvent.isPlayable, hpitch]
  simp [Except.toOption]

/-- A note that MIDI can play is in the file, for its own instrument. -/
theorem noteOf_of_isPlayable (hp : p.check = .ok p) (h : noteOf p e = .ok x?)
    (he : e.isPlayable = true) : ∃ n, x? = some (e.instrumentId, n) ∧ SoundsAs p e n := by
  obtain ⟨hlow, -⟩ := Playback.velocity_of_check hp
  obtain ⟨pitch, hpitch, hrange⟩ := exists_midiNote h
  obtain ⟨pitch', hpitch', h⟩ := bind_eq_ok h
  obtain rfl := Except.ok.inj (hpitch.symm.trans hpitch')
  rw [if_pos (hrange.mp he)] at h
  obtain ⟨tick, htick, h⟩ := bind_eq_ok h
  obtain ⟨ticks, hticks, h⟩ := bind_eq_ok h
  refine ⟨_, (Except.ok.inj h).symm, ?_, htick, hticks, Int.toNat_of_nonneg hlow⟩
  rw [hpitch, Int.toNat_of_nonneg (hrange.mp he).1]

/-- All other notes are left out. -/
theorem noteOf_of_not_isPlayable (h : noteOf p e = .ok x?) (he : e.isPlayable = false) :
    x? = none := by
  obtain ⟨pitch, hpitch, hrange⟩ := exists_midiNote h
  obtain ⟨pitch', hpitch', h⟩ := bind_eq_ok h
  obtain rfl := Except.ok.inj (hpitch.symm.trans hpitch')
  rw [if_neg fun hin ↦ Bool.false_ne_true (he.symm.trans (hrange.mpr hin))] at h
  exact (Except.ok.inj h).symm

/-- The notes in the file are those of the score that MIDI can play, in the same order, each for its
own instrument. -/
theorem forall₂_played (hp : p.check = .ok p)
    (h : List.Forall₂ (fun e x? ↦ noteOf p e = .ok x?) es xs) :
    List.Forall₂ (fun e x ↦ e.instrumentId = x.1 ∧ SoundsAs p e x.2)
      (es.filter NoteEvent.isPlayable) (xs.filterMap id) := by
  induction h with
  | nil => exact .nil
  | @cons e x? es xs hx _ ih =>
    by_cases he : e.isPlayable = true
    · obtain ⟨n, rfl, hn⟩ := noteOf_of_isPlayable hp hx he
      rw [List.filter_cons_of_pos he]
      exact .cons ⟨rfl, hn⟩ ih
    · obtain rfl := noteOf_of_not_isPlayable hx (Bool.not_eq_true _ ▸ he)
      rw [List.filter_cons_of_neg he]
      exact ih

/-- The notes of one instrument in the file are its notes in the score. -/
theorem forall₂_filter_played (hp : p.check = .ok p)
    (h : List.Forall₂ (fun e x? ↦ noteOf p e = .ok x?) es xs) (key : String) :
    List.Forall₂ (SoundsAs p) (es.filter fun e ↦ e.instrumentId == key && e.isPlayable)
      (((xs.filterMap id).filter fun x ↦ x.1 == key).map Prod.snd) := by
  rw [← List.filter_filter, List.forall₂_map_right_iff]
  refine (List.rel_filter (fun e x hex ↦ ?_) (forall₂_played hp h)).imp fun _ _ hex ↦ hex.2
  show (e.instrumentId == key) = true ↔ (x.1 == key) = true
  rw [hex.1]

end

theorem length_eq_countP_isPlayable (es : List NoteEvent) :
    es.length = es.countP NoteEvent.isPlayable + es.countP (!·.isPlayable) := by
  simpa using List.length_eq_countP_add_countP NoteEvent.isPlayable (l := es)

/-- Items sorted into drawers are all there, if every item has its drawer. -/
theorem sum_length_filter {α : Type} {keys : List String} (hkeys : keys.Nodup) {xs : List α}
    {key : α → String} (h : ∀ x ∈ xs, key x ∈ keys) :
    (keys.map fun k ↦ (xs.filter fun x ↦ key x == k).length).sum = xs.length := by
  have hcount (k : String) : (xs.filter fun x ↦ key x == k).length =
      (xs.map key : Multiset String).count k := by
    rw [Multiset.coe_count, List.count, List.countP_map, List.countP_eq_length_filter]
    rfl
  have hmem : ∀ k ∈ (xs.map key : Multiset String), k ∈ keys.toFinset := by
    intro k hk
    obtain ⟨x, hx, rfl⟩ := List.mem_map.mp (Multiset.mem_coe.mp hk)
    exact List.mem_toFinset.mpr (h x hx)
  rw [List.map_congr_left fun k _ ↦ hcount k, ← List.sum_toFinset _ hkeys,
    Multiset.sum_count_eq_card hmem, Multiset.coe_card, List.length_map]

/-! ## Tracks

An arrangement is a value of its own, between the score and the bytes. -/

/-- A channel is one of sixteen, and not the one for percussion. -/
theorem channelOf_le (index : Nat) : channelOf index ≤ 15 ∧ channelOf index ≠ 9 := by
  rw [channelOf]
  split <;> omega

theorem channelOf_eq_iff {i j : Nat} : channelOf i = channelOf j ↔ i % 15 = j % 15 := by
  rw [channelOf, channelOf]
  split <;> split <;> omega

/-- The instrument of a track. -/
def Track.row (t : Track) : Row := ⟨t.id, t.name⟩

/-- Rows with the bytes of their names. -/
theorem named_ok {rows : List Row} {named : List (Row × List UInt8)}
    (h : (rows.mapM fun r ↦ do return (r, ← latin1 r.name)) = .ok named) :
    named.map Prod.fst = rows ∧ ∀ x ∈ named, latin1 x.1.name = .ok x.2 := by
  have hall := mapM_ok h
  clear h
  induction hall with
  | nil => simp
  | cons hx _ ih =>
    obtain ⟨bytes, hbytes, hx⟩ := bind_eq_ok hx
    obtain rfl := Except.ok.inj hx
    exact ⟨by rw [List.map_cons, ih.1], List.forall_mem_cons.mpr ⟨hbytes, ih.2⟩⟩

section

variable {p : Playback} {s : Score} {a : Arrangement}

/-- What a score that can be arranged is made into. -/
theorem ofScore_ok (h : Arrangement.ofScore p s = .ok a) :
    ∃ xs, List.Forall₂ (fun e x? ↦ noteOf p e = .ok x?) s.events xs ∧
      a.skipped = xs.length - (xs.filterMap id).length ∧
      a.tracks.map Track.row = trackRows s ∧
      ∀ i t, a.tracks[i]? = some t → t.channel = channelOf i ∧ latin1 t.name = .ok t.nameBytes ∧
        t.notes = ((xs.filterMap id).filter fun x ↦ x.1 == t.id).map Prod.snd := by
  obtain ⟨microseconds, -, h⟩ := bind_eq_ok h
  obtain ⟨texts, -, h⟩ := bind_eq_ok h
  obtain ⟨named, hnamed, h⟩ := bind_eq_ok h
  obtain ⟨xs, hxs, h⟩ := bind_eq_ok h
  obtain rfl := Except.ok.inj h
  obtain ⟨hrows, hbytes⟩ := named_ok hnamed
  refine ⟨xs, mapM_ok hxs, rfl, ?_, ?_⟩
  · rw [← hrows]
    refine List.ext_getElem? fun i ↦ ?_
    simp only [List.getElem?_map, List.getElem?_mapIdx, Option.map_map]
    rfl
  · intro i t ht
    rw [List.getElem?_mapIdx, Option.map_eq_some_iff] at ht
    obtain ⟨x, hx, rfl⟩ := ht
    exact ⟨rfl, hbytes x (List.mem_of_getElem? hx), rfl⟩

/-- The notes of a track are the notes of its instrument that MIDI can play. -/
theorem forall₂_notes (hp : p.check = .ok p) (h : Arrangement.ofScore p s = .ok a) {t : Track}
    (ht : t ∈ a.tracks) : List.Forall₂ (SoundsAs p)
      (s.events.filter fun e ↦ e.instrumentId == t.id && e.isPlayable) t.notes := by
  obtain ⟨xs, hxs, -, -, htracks⟩ := ofScore_ok h
  obtain ⟨i, hi⟩ := List.mem_iff_getElem?.mp ht
  rw [(htracks i t hi).2.2]
  exact forall₂_filter_played hp hxs t.id

theorem map_id_tracks (h : Arrangement.ofScore p s = .ok a) :
    a.tracks.map Track.id = (trackRows s).map Row.id := by
  obtain ⟨xs, -, -, hrows, -⟩ := ofScore_ok h
  rw [← hrows, List.map_map]
  rfl

theorem nodup_tracks (h : Arrangement.ofScore p s = .ok a) : (a.tracks.map Track.id).Nodup := by
  rw [map_id_tracks h, trackRows_eq]
  exact nodup_foldl_addRow _

/-- A track has the name that its id has where it occurs first. -/
theorem find?_namings (h : Arrangement.ofScore p s = .ok a) {t : Track} (ht : t ∈ a.tracks) :
    (namings s).find? (·.id == t.id) = some t.row := by
  obtain ⟨xs, -, -, hrows, -⟩ := ofScore_ok h
  have hmem : t.row ∈ trackRows s := hrows ▸ List.mem_map_of_mem ht
  rw [← find?_foldl_addRow, ← trackRows_eq]
  exact find?_id_of_mem (map_id_tracks h ▸ nodup_tracks h) hmem

theorem channel_eq (h : Arrangement.ofScore p s = .ok a) {i : Nat} {t : Track}
    (ht : a.tracks[i]? = some t) : t.channel = channelOf i := by
  obtain ⟨xs, -, -, -, htracks⟩ := ofScore_ok h
  exact (htracks i t ht).1

theorem skipped_eq (hp : p.check = .ok p) (h : Arrangement.ofScore p s = .ok a) :
    a.skipped = s.events.countP (!·.isPlayable) := by
  obtain ⟨xs, hxs, hskipped, -⟩ := ofScore_ok h
  rw [hskipped, ← hxs.length_eq, ← (forall₂_played hp hxs).length_eq,
    ← List.countP_eq_length_filter, length_eq_countP_isPlayable, Nat.add_sub_cancel_left]

/-- The notes on all tracks are as many as MIDI can play. -/
theorem sum_length_notes (hp : p.check = .ok p) (h : Arrangement.ofScore p s = .ok a) :
    (a.tracks.map (·.notes.length)).sum = s.events.countP NoteEvent.isPlayable := by
  have hlength : ∀ t ∈ a.tracks, t.notes.length =
      ((s.events.filter NoteEvent.isPlayable).filter fun e ↦ e.instrumentId == t.id).length := by
    intro t ht
    rw [← (forall₂_notes hp h ht).length_eq, List.filter_filter]
  have hkeys : ∀ e ∈ s.events.filter NoteEvent.isPlayable,
      e.instrumentId ∈ a.tracks.map Track.id := by
    intro e he
    rw [map_id_tracks h]
    exact mem_trackRows_of_event (List.mem_filter.mp he).1
  rw [List.countP_eq_length_filter, ← sum_length_filter (nodup_tracks h) hkeys, List.map_map,
    List.map_congr_left hlength]
  rfl

/-- The tracks of an arrangement and what is in them, said of the score alone. -/
structure Arranges (p : Playback) (s : Score) (a : Arrangement) : Prop where
  /-- The ids of the layout in the order of their first rows, then the remaining ids of notes in the
  order of their first notes. -/
  ids : a.tracks.map Track.id = (layoutIds s).eraseDups ++ (remainingIds s).eraseDups
  /-- No id has two tracks. -/
  nodup : (a.tracks.map Track.id).Nodup
  /-- A track has the name that its id has where it occurs first, in a row or else in a note. -/
  names : ∀ t ∈ a.tracks, (namings s).find? (·.id == t.id) = some ⟨t.id, t.name⟩
  /-- The pitch of every note has a number. -/
  numbers : ∀ e ∈ s.events, ∃ pitch, e.midiNote = .ok pitch
  /-- The instrument of every note has a track. -/
  found : ∀ e ∈ s.events, ∃ t, a.tracks.find? (·.id == e.instrumentId) = some t
  /-- The notes of a track are the notes of its instrument that MIDI can play, in order. -/
  notes : ∀ t ∈ a.tracks, List.Forall₂ (SoundsAs p)
    (s.events.filter fun e ↦ e.instrumentId == t.id && e.isPlayable) t.notes
  /-- All other notes are counted. -/
  skipped : a.skipped = s.events.countP (!·.isPlayable)
  /-- Every note of the score is in the file or counted. -/
  total : (a.tracks.map (·.notes.length)).sum + a.skipped = s.events.length
  /-- What is said is how many they are, in decimal; nothing is said if there are none. -/
  warning : a.warning? = if s.events.countP (!·.isPlayable) = 0 then none
    else some ("skipped " ++ toString (s.events.countP (!·.isPlayable)) ++
      " note(s) outside the MIDI range")
  /-- The channels are those for melodies. -/
  channels : ∀ t ∈ a.tracks, t.channel ≤ 15 ∧ t.channel ≠ 9
  /-- Fifteen tracks in a row have different channels. -/
  sharing : ∀ i j t u, a.tracks[i]? = some t → a.tracks[j]? = some u →
    (t.channel = u.channel ↔ i % 15 = j % 15)

/-- **Arranging a score.**  Every note is on the track of its instrument or counted as skipped, and
there are no other notes and no other tracks.  Nothing is asked of the score: it may be a compiled
one or any other. -/
theorem arranges_ofScore (hp : p.check = .ok p) (h : Arrangement.ofScore p s = .ok a) :
    Arranges p s a := by
  refine ⟨?_, nodup_tracks h, fun t ht ↦ find?_namings h ht, ?_, ?_,
    fun t ht ↦ forall₂_notes hp h ht, skipped_eq hp h, ?_, ?_, ?_, ?_⟩
  · rw [map_id_tracks h, map_id_trackRows]
  -- every note was looked at, and its pitch has a number
  · obtain ⟨xs, hxs, -⟩ := ofScore_ok h
    have hnumbers := hxs.imp fun e x? hx ↦ And.intro (exists_midiNote hx) hx
    intro e he
    obtain ⟨pitch, hpitch, -⟩ := ((List.forall₂_and_left _ _).mp hnumbers).1 e he
    exact ⟨pitch, hpitch⟩
  · intro e he
    obtain ⟨t, ht, hid⟩ := List.mem_map.mp (map_id_tracks h ▸ mem_trackRows_of_event he)
    rw [← Option.isSome_iff_exists, List.find?_isSome]
    exact ⟨t, ht, beq_iff_eq.mpr hid⟩
  · rw [sum_length_notes hp h, skipped_eq hp h, length_eq_countP_isPlayable]
  · rw [Arrangement.warning?, skipped_eq hp h]
    rfl
  · intro t ht
    obtain ⟨i, hi⟩ := List.mem_iff_getElem?.mp ht
    rw [channel_eq h hi]
    exact channelOf_le i
  · intro i j t u ht hu
    rw [channel_eq h ht, channel_eq h hu]
    exact channelOf_eq_iff

end

/-- A row that stands in two groups, notes of an instrument that is in none, and a note that is too
low. -/
def wedding : Score where
  events := [⟨"C4", 0, 1, "p", "Piano"⟩, ⟨"C-3", 0, 1, "p", "Piano"⟩,
    ⟨"E4", 0.5, 1, "guest", "Aunt"⟩, ⟨"G4", 1, 1, "guest", "Uncle"⟩]
  groups := [⟨"A", [⟨"ob", "Oboe"⟩, ⟨"p", "Piano"⟩]⟩, ⟨"B", [⟨"ob", "Oboe II"⟩]⟩]

theorem arranges_ofScore_wedding :
    Playback.check {} = .ok {} ∧ ∃ a, Arrangement.ofScore {} wedding = .ok a ∧
      a.tracks.map (fun t ↦ (t.id, t.name, t.channel, t.notes)) =
        [("ob", "Oboe", 0, []), ("p", "Piano", 1, [⟨60, 0, 1920, 80⟩]),
          ("guest", "Aunt", 2, [⟨64, 960, 1920, 80⟩, ⟨67, 1920, 1920, 80⟩])] ∧
      a.warning? = some "skipped 1 note(s) outside the MIDI range" ∧ Arranges {} wedding a := by
  obtain ⟨a, ha, hshown⟩ := exists_ok_of_any (x := Arrangement.ofScore {} wedding) (f := fun a ↦
    a.tracks.map (fun t ↦ (t.id, t.name, t.channel, t.notes)) =
        [("ob", "Oboe", 0, []), ("p", "Piano", 1, [⟨60, 0, 1920, 80⟩]),
          ("guest", "Aunt", 2, [⟨64, 960, 1920, 80⟩, ⟨67, 1920, 1920, 80⟩])] ∧
      a.warning? = some "skipped 1 note(s) outside the MIDI range") (by decide +kernel)
  obtain ⟨htracks, hwarning⟩ := of_decide_eq_true hshown
  exact ⟨Playback.check_default, a, ha, htracks, hwarning,
    arranges_ofScore Playback.check_default ha⟩

end Midi

end TextScore
