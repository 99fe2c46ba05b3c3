import TextScore.Proofs.Json.Outside
import TextScore.Proofs.Json.RoundTrip
import TextScore.Proofs.Json.Squeezed
import TextScore.Proofs.Number.Scaling
import TextScore.Proofs.Outcome
import TextScore.Proofs.Score.Roster
import TextScore.Proofs.Timeline.Forward
import TextScore.Proofs.Timeline.Transposition
import TextScore.Score.Listing
import TextScore.Score.Payload

/-!
# How scores are shown, and read back

A score is shown in two forms, as a listing and as JSON text.  This module is about whether a score
has these texts, whether the JSON text is standard, and whether it can be read back.

Whatever compiles should be shown, in either form.  That is so of all scores but those with very
large numbers.  A listing draws a bar for every note, as long as the note lasts, and there are
limits to the length of a text: a text cannot be longer than a signed number of 64 bits can say, and
it cannot be longer than there is room for.  How much room there is depends on the machine, so it is
an argument of the listing that nothing here restricts.  JSON text has all integers in full, which
fails if they have too many digits, and doubles that are not finite appear in it under names that
standard JSON does not know.  A tempo may be so low that a note lasts for ever, and such a note can
be shown in neither form, whatever the room.

The limits are exact.  A bar has four characters for a second, so its length is four times a double,
which loses no digit and is compared with a power of two.  That the text is standard depends on the
times alone, for these are all the doubles in a payload; and that it can be written depends on the
MIDI numbers and on the numbers of lines, since a transposition was read from the text and can be
written for that reason.

Whoever reads the JSON text of a score, however it is indented, gets the payload and nothing else:
titles, ids, messages and pitches to the character, whatever quotes, backslashes and control
characters are in them.  Indentation is white space between the tokens and changes no token.  This
is so of every score, compiled or not, whose times are finite.

## What is here

* `Ensemble.forall_collect` — what every declared instrument satisfies.
* `Score.listingWithin_ok_iff`, `Score.toJson_ok_iff` — which scores have a listing and JSON text.
* `Score.isStandard_toJson_iff` — whose JSON text is standard.
* `Score.Shown`, `Score.shown_ofText` — the same for compiled scores.
* `Score.unshown_stalled` — a score that compiles and can be shown in neither form.
* `Score.squeeze_toJson` — without that white space the text is the compact one.
* `Score.readBack_toJson` — the text is read back.
-/

set_option autoImplicit false

namespace TextScore

open Number

/-! ## Which scores can be shown

A score that compiles has text as long as its numbers have. -/

/-! ### Transpositions -/

/-- What every instrument satisfies that is declared, all instruments do that are collected. -/
theorem Ensemble.forall_collect {Q : Instrument → Prop}
    (hQ : ∀ (d : Declaration) i, d.instrument.value = .ok i → Q i) {defaults : Defaults}
    {ls : List (Nat × List Char)} {e : Ensemble} (h : (collect defaults ls).value = .ok e) :
    ∀ id i, e.instruments.get? id = some i → Q i := by
  rw [collect, Noted.value_bind fun _ ↦ .pure _] at h
  obtain ⟨c, hc, h⟩ := bind_eq_ok h
  cases h
  refine Collecting.induct (P := fun c ↦ ∀ id i, c.ensemble.instruments.get? id = some i → Q i)
    (fun _ _ h ↦ h) (fun _ _ h ↦ h) ?_ (fun _ _ h ↦ by cases h) hc
  intro c d i h hi id j hj
  rw [Collecting.add] at hj
  by_cases hid : id = i.id
  · rw [hid, Ensemble.register, OrderedMap.get?_put_self] at hj
    obtain rfl := Option.some.inj hj
    exact hQ d i hi
  · rw [Ensemble.register, OrderedMap.get?_put_of_ne hid] at hj
    exact h id j hj

/-- The transposition that is declared can be written. -/
theorem Declaration.isWritable_transpose {d : Declaration} {i : Instrument}
    (h : d.instrument.value = .ok i) : isWritable i.transpose = true := by
  have hzero : isWritable 0 = true := by decide +kernel
  rw [instrument, Noted.value_bind fun _ ↦ .pure _] at h
  obtain ⟨n, hn, h⟩ := bind_eq_ok h
  obtain rfl := Except.ok.inj h
  show isWritable n = true
  rw [semitones] at hn
  split at hn
  case h_1 =>
    obtain rfl := Except.ok.inj hn
    exact hzero
  case h_2 value _ =>
    split at hn
    case isTrue =>
      rw [Noted.value_ofExcept] at hn
      exact isWritable_of_readInt hn
    case isFalse =>
      obtain rfl := Except.ok.inj hn
      exact hzero

/-- So can the transpositions of all instruments of a score. -/
theorem Draft.isWritable_transpose {defaults : Defaults} {text : List Char} {d : Draft}
    (h : (ofText defaults text).value = .ok d) :
    ∀ i ∈ d.ensemble.instruments.values, isWritable i.transpose = true := by
  obtain ⟨e, t, hcollect, -, ht, -, hensemble⟩ := ofText_ok h
  intro i hi
  have hplayer := (Timeline.enrols_ofBlocks ht).player i.id
  rw [hensemble, Ensemble.mem_values_iff] at hi
  rw [Ensemble.player, hi, Option.getD_some] at hplayer
  rw [hplayer, Ensemble.player]
  cases hdeclared : e.instruments.get? i.id with
  | some j =>
    exact Ensemble.forall_collect (Q := fun i ↦ isWritable i.transpose = true)
      (fun _ _ ↦ Declaration.isWritable_transpose) hcollect i.id j hdeclared
  | none =>
    show isWritable 0 = true
    decide +kernel

/-! ### Listings -/

namespace Score

/-- A bar is drawn for a note that lasts less than `2 ^ 61` seconds, if there is room for it. -/
theorem barLength_ok_iff {room : Nat} {e : NoteEvent} (he : 0 ≤ value e.duration) :
    (∃ n, barLength room e = .ok n) ↔
      e.duration < 2305843009213693952 ∧ 4 * value e.duration < room := by
  have hbars : e.duration * barsPerSecond = e.duration * 4 := rfl
  have hbound : ((lengthBound : Nat) : Int) = 2 ^ 63 := rfl
  have hiff := truncate_mul_four_iff he
  rw [barLength, hbars, hbound, bind_ok_iff]
  constructor
  · rintro ⟨n, hn, k, hk⟩
    by_cases hlong : 2 ^ 63 ≤ n
    · rw [if_pos hlong] at hk
      cases hk
    by_cases hroom : (room : Int) ≤ n
    · rw [if_neg hlong, if_pos hroom] at hk
      cases hk
    exact ⟨hiff.mp ⟨n, hn, not_le.mp hlong⟩,
      (truncate_mul_four_lt_iff he hn _).mp (not_le.mp hroom)⟩
  · rintro ⟨hlong, hroom⟩
    obtain ⟨n, hn, hlt⟩ := hiff.mpr hlong
    refine ⟨n, hn, ?_⟩
    have hshort := (truncate_mul_four_lt_iff he hn room).mpr hroom
    rw [if_neg (not_le.mpr hlt), if_neg (not_le.mpr hshort)]
    exact ⟨_, rfl⟩

/-- A score has a listing if every note of it has a bar. -/
theorem listingWithin_ok_iff {room : Nat} {s : Score} (hs : ∀ e ∈ s.events, e.Forward) :
    (∃ text, s.listingWithin room = .ok text) ↔
      ∀ e ∈ s.events, e.duration < 2305843009213693952 ∧ 4 * value e.duration < room := by
  rw [listingWithin, bind_pure_ok_iff, mapM_ok_iff]
  refine forall₂_congr fun e he ↦ ?_
  rw [noteLine, bind_pure_ok_iff]
  exact barLength_ok_iff (hs e he).2

/-! ### JSON text -/

theorem ofInt_ok_iff {n : Int} : (∃ j, Json.ofInt n = .ok j) ↔ isWritable n = true := by
  rw [Json.ofInt]
  split
  case isTrue h => exact iff_of_true ⟨_, rfl⟩ h
  case isFalse h =>
    refine iff_of_false ?_ h
    rintro ⟨j, hj⟩
    cases hj

/-- A score has JSON text if all its integers can be written. -/
theorem toJson_ok_iff {s : Score} (indent? : Option Nat) :
    (∃ text, s.toJson indent? = .ok text) ↔
      (∀ e ∈ s.events, ∃ n, e.midiNote = .ok n ∧ isWritable n = true) ∧
      (∀ d ∈ s.diagnostics, isWritable d.line = true) ∧
      ∀ i ∈ s.instruments, isWritable i.transpose = true := by
  have hnote (e : NoteEvent) : (∃ j, Json.ofNote e = .ok j) ↔
      ∃ n, e.midiNote = .ok n ∧ isWritable n = true := by
    rw [Json.ofNote, bind_ok_iff]
    refine exists_congr fun n ↦ and_congr_right fun _ ↦ ?_
    rw [bind_pure_ok_iff, ofInt_ok_iff]
  have hdiagnostic (d : Diagnostic) : (∃ j, Json.ofDiagnostic d = .ok j) ↔
      isWritable d.line = true := by
    rw [Json.ofDiagnostic, bind_pure_ok_iff, ofInt_ok_iff]
  have hinstrument (i : Instrument) : (∃ j, Json.ofInstrument i = .ok j) ↔
      isWritable i.transpose = true := by
    rw [Json.ofInstrument, bind_pure_ok_iff, ofInt_ok_iff]
  have hpure (j : Json) : (∃ k, (pure j : Except Fault Json) = .ok k) ↔ True :=
    iff_true_intro ⟨j, rfl⟩
  rw [toJson, bind_pure_ok_iff, payload]
  simp only [bind_ok_iff, hpure, and_true, exists_and_right, mapM_ok_iff, hnote, hdiagnostic,
    hinstrument]

theorem ofInt_ok {n : Int} {j : Json} (h : Json.ofInt n = .ok j) : j = .int n := by
  rw [Json.ofInt] at h
  split at h
  case isTrue => exact (Except.ok.inj h).symm
  case isFalse => cases h

theorem doubles_ofString? (s? : Option String) : (Json.ofString? s?).doubles = [] := by
  cases s? <;> rfl

theorem doubles_ofNote {e : NoteEvent} {j : Json} (h : Json.ofNote e = .ok j) :
    j.doubles = [e.start, e.duration] := by
  obtain ⟨n, -, h⟩ := bind_eq_ok h
  obtain ⟨k, hk, h⟩ := bind_eq_ok h
  obtain rfl := Except.ok.inj h
  rw [ofInt_ok hk]
  rfl

theorem doubles_ofDiagnostic {d : Diagnostic} {j : Json} (h : Json.ofDiagnostic d = .ok j) :
    j.doubles = [] := by
  obtain ⟨k, hk, h⟩ := bind_eq_ok h
  obtain rfl := Except.ok.inj h
  rw [ofInt_ok hk]
  rfl

theorem doubles_ofInstrument {i : Instrument} {j : Json} (h : Json.ofInstrument i = .ok j) :
    j.doubles = [] := by
  obtain ⟨k, hk, h⟩ := bind_eq_ok h
  obtain rfl := Except.ok.inj h
  rw [ofInt_ok hk, Json.doubles_obj]
  simp only [List.flatMap_cons, doubles_ofString?]
  rfl

theorem doubles_ofGroup (g : GroupLayout) : (Json.ofGroup g).doubles = [] := by
  have hrow (r : Row) : (Json.ofRow r).doubles = [] := rfl
  have hrows : (Json.arr (g.rows.map Json.ofRow)).doubles = [] := by
    rw [Json.doubles_arr, List.flatMap_map]
    exact List.flatMap_eq_nil_iff.mpr fun r _ ↦ hrow r
  rw [Json.ofGroup, Json.doubles_obj]
  simp only [List.flatMap_cons, List.flatMap_nil, hrows]
  rfl

/-- The doubles in the JSON values that are made of some items. -/
theorem doubles_mapM {α : Type} {f : α → Except Fault Json} {g : α → List Float}
    (hf : ∀ {a j}, f a = .ok j → j.doubles = g a) {as : List α} {js : List Json}
    (h : as.mapM f = .ok js) : (Json.arr js).doubles = as.flatMap g := by
  rw [Json.doubles_arr]
  have hall := mapM_ok h
  clear h
  induction hall with
  | nil => rfl
  | cons hj _ ih => rw [List.flatMap_cons, List.flatMap_cons, hf hj, ih]

/-- The doubles in the JSON value of a score. -/
theorem doubles_payload {s : Score} {j : Json} (h : s.payload = .ok j) :
    j.doubles = s.totalDuration :: s.events.flatMap fun e ↦ [e.start, e.duration] := by
  obtain ⟨events, hevents, h⟩ := bind_eq_ok h
  obtain ⟨diagnostics, hdiagnostics, h⟩ := bind_eq_ok h
  obtain ⟨instruments, hinstruments, h⟩ := bind_eq_ok h
  obtain rfl := Except.ok.inj h
  have hnone {β : Type} (as : List β) : as.flatMap (fun _ ↦ ([] : List Float)) = [] :=
    List.flatMap_eq_nil_iff.mpr fun _ _ ↦ rfl
  have hmetadata : s.metadata.doubles = [] := by
    rw [metadata, Json.doubles_obj]
    simp only [List.flatMap_cons, doubles_ofString?]
    rfl
  have hstructure : s.structureJson.doubles = [s.totalDuration] := by
    have hgroups : (Json.arr (s.groups.map Json.ofGroup)).doubles = [] := by
      rw [Json.doubles_arr, List.flatMap_map]
      exact List.flatMap_eq_nil_iff.mpr fun g _ ↦ doubles_ofGroup g
    rw [structureJson, Json.doubles_obj]
    simp only [List.flatMap_cons, hgroups]
    rfl
  rw [Json.doubles_obj]
  simp only [List.flatMap_cons, List.flatMap_nil, hmetadata, hstructure,
    doubles_mapM doubles_ofNote hevents, doubles_mapM doubles_ofDiagnostic hdiagnostics,
    doubles_mapM doubles_ofInstrument hinstruments, hnone, List.append_nil, List.nil_append]
  rfl

theorem toJson_ok {s : Score} {indent? : Option Nat} {text : String}
    (h : s.toJson indent? = .ok text) :
    ∃ j, s.payload = .ok j ∧ text = String.ofList (j.render ⟨indent?⟩ 0) := by
  obtain ⟨j, hj, h⟩ := bind_eq_ok h
  exact ⟨j, hj, (Except.ok.inj h).symm⟩

/-- The doubles in the JSON value of a score are its times. -/
theorem forall_doubles_payload_iff {s : Score} {j : Json} (h : s.payload = .ok j) :
    (∀ x ∈ j.doubles, x.isFinite = true) ↔ s.totalDuration.isFinite = true ∧
      ∀ e ∈ s.events, e.start.isFinite = true ∧ e.duration.isFinite = true := by
  rw [doubles_payload h, List.forall_mem_cons, List.forall_mem_flatMap]
  refine and_congr_right fun _ ↦ forall₂_congr fun e _ ↦ ?_
  rw [List.forall_mem_cons, List.forall_mem_singleton]

/-- The JSON text of a score is standard if all its times are finite. -/
theorem isStandard_toJson_iff {s : Score} {indent? : Option Nat} {text : String}
    (h : s.toJson indent? = .ok text) :
    Json.IsStandard text.toList ↔ s.totalDuration.isFinite = true ∧
      ∀ e ∈ s.events, e.start.isFinite = true ∧ e.duration.isFinite = true := by
  obtain ⟨j, hj, rfl⟩ := toJson_ok h
  rw [String.toList_ofList, Json.isStandard_render, forall_doubles_payload_iff hj]

end Score

/-! ### Compiled scores -/

namespace Score

/-- How far a score can be shown. -/
structure Shown (s : Score) : Prop where
  /-- There is a listing if and only if every note lasts less than `2 ^ 61` seconds and its bar is
  shorter than the room for it. -/
  listing : ∀ room, (∃ text, s.listingWithin room = .ok text) ↔
    ∀ e ∈ s.events, e.duration < 2305843009213693952 ∧ 4 * value e.duration < room
  /-- Every note has a MIDI number. -/
  numbers : ∀ e ∈ s.events, ∃ n, e.midiNote = .ok n
  /-- There is JSON text, however indented, if and only if the MIDI numbers and the numbers of the
  lines can be written. -/
  json : ∀ indent?, (∃ text, s.toJson indent? = .ok text) ↔
    (∀ e ∈ s.events, ∃ n, e.midiNote = .ok n ∧ isWritable n = true) ∧
      ∀ d ∈ s.diagnostics, isWritable d.line = true
  /-- The JSON text is standard if and only if all times are finite. -/
  standard : ∀ indent? text, s.toJson indent? = .ok text →
    (Json.IsStandard text.toList ↔ s.totalDuration.isFinite = true ∧
      ∀ e ∈ s.events, e.start.isFinite = true ∧ e.duration.isFinite = true)

/-- **What can be shown.**  A compiled score has a listing if none of its notes is too long, and
JSON text if all its integers can be written, which is standard if its times are finite.  Each of
these is an equivalence, and the first one is so for any room.  It is promised of every score that
it can be shown; `unshown_stalled` is one that cannot. -/
theorem shown_ofText {defaults : Defaults} {text : String} {s : Score}
    (hdefaults : defaults.check = .ok defaults) (h : (ofText defaults text).1 = .ok s) :
    s.Shown := by
  rw [ofText_fst] at h
  obtain ⟨d, hd, rfl⟩ := map_eq_ok h
  obtain ⟨e, t, -, -, ht, hevents, -⟩ := Draft.ofText_ok hd
  refine ⟨fun _ ↦ listingWithin_ok_iff (Draft.forward_ofText hdefaults hd), ?_, fun indent? ↦ ?_,
    fun _ _ ↦ isStandard_toJson_iff⟩
  · intro n hn
    rw [Draft.score, hevents, List.mem_mergeSort, Array.mem_toList_iff] at hn
    obtain ⟨p, hp⟩ := Timeline.named_ofBlocks ht n hn
    exact ⟨_, Pitch.midiNumber_of_name hp⟩
  · rw [toJson_ok_iff]
    exact and_congr_right fun _ ↦ and_iff_left (Draft.isWritable_transpose hd)

/-- One note of a quarter at the default tempo. -/
theorem shown_ofText_quarter : ∃ s, Defaults.check {} = .ok {} ∧
    (ofText {} "m 1\np: c4").1 = .ok s ∧ s.Shown := by
  obtain ⟨s, hs⟩ := exists_ok (x := (ofText {} "m 1\np: c4").1) (by decide +kernel)
  exact ⟨s, Defaults.check_default, hs, shown_ofText Defaults.check_default hs⟩

/-! ### A score that cannot be shown -/

/-- One note, so slow that its length is no number of seconds. -/
def stalled : String :=
  "tempo: 0." ++ String.ofList (List.replicate 308 '0') ++ "1\nm 1\np: c4"

/-- The note lasts forever: it has no bar, whatever the room for it, and JSON text says so by a
name. -/
theorem unshown_stalled : ∃ s, (ofText {} stalled).1 = .ok s ∧ s.hasPlayableNotes = true ∧
    (∀ room, ¬∃ text, s.listingWithin room = .ok text) ∧
    ∀ indent? text, s.toJson indent? = .ok text → ¬Json.IsStandard text.toList := by
  -- it is the characters that are compiled: decoding the text takes longer than compiling it
  have hchars : stalled.toList =
      "tempo: 0.".toList ++ List.replicate 308 '0' ++ "1\nm 1\np: c4".toList := by
    simp only [stalled, String.toList_append, String.toList_ofList]
  obtain ⟨s, hs, hshown⟩ := exists_ok_of_any (x := (ofText {} stalled).1) (f := fun s ↦
    s.hasPlayableNotes = true ∧ s.totalDuration.isFinite = false ∧
      (s.events.all fun e ↦ decide (e.duration < 2305843009213693952)) = false) (by
        rw [ofText_fst, hchars]
        decide +kernel)
  obtain ⟨hplayable, htotal, hlong⟩ := of_decide_eq_true hshown
  refine ⟨s, hs, hplayable, fun room hlisting ↦ ?_, fun indent? text htext hstandard ↦ ?_⟩
  · have hforward : ∀ e ∈ s.events, e.Forward := by
      rw [ofText_fst] at hs
      obtain ⟨d, hd, rfl⟩ := map_eq_ok hs
      exact Draft.forward_ofText Defaults.check_default hd
    have hshort := (listingWithin_ok_iff hforward).mp hlisting
    rw [List.all_eq_true.mpr fun e he ↦ decide_eq_true (hshort e he).1] at hlong
    cases hlong
  · rw [((isStandard_toJson_iff htext).mp hstandard).1] at htotal
    cases htotal

end Score

end TextScore

namespace TextScore.Score

open Number

/-! ## The JSON text of a score is read back

What is known of JSON values in general is applied to the payload of a score, whose doubles are its
times. -/

/-- A score has compact JSON text if it has any, and the texts differ in white space only. -/
theorem squeeze_toJson {s : Score} {indent? : Option Nat} {text : String}
    (h : s.toJson indent? = .ok text) :
    ∃ compact, s.toJson none = .ok compact ∧ Json.squeeze text.toList = compact.toList := by
  obtain ⟨j, hj, rfl⟩ := toJson_ok h
  refine ⟨String.ofList (j.render ⟨none⟩ 0), ?_, ?_⟩
  · rw [toJson, hj]
    rfl
  · rw [String.toList_ofList, String.toList_ofList, Json.squeeze_render]

/-- **JSON text is read back.**  If the times of a score are finite, its JSON text is read as the
payload, and without the white space outside of its strings it is the compact text.  Nothing else is
asked of the score or of the indentation. -/
theorem readBack_toJson {s : Score} {indent? : Option Nat} {text : String}
    (htotal : s.totalDuration.isFinite = true)
    (htimes : ∀ e ∈ s.events, e.start.isFinite = true ∧ e.duration.isFinite = true)
    (h : s.toJson indent? = .ok text) :
    ∃ j, s.payload = .ok j ∧ Json.read? text.toList = some j.datum ∧
      ∃ compact, s.toJson none = .ok compact ∧ Json.squeeze text.toList = compact.toList := by
  obtain ⟨j, hj, htext⟩ := toJson_ok h
  have hfinite := (forall_doubles_payload_iff hj).mpr ⟨htotal, htimes⟩
  refine ⟨j, hj, ?_, squeeze_toJson h⟩
  rw [htext, String.toList_ofList, Json.read?_render _ _ hfinite]

/-- A score with marks of JSON in its title, on two lines. -/
def marked : Score where
  events := [⟨"C4", 0, 0.5, "\\", "\x7b, \x7d"⟩]
  totalDuration := 0.5
  title? := some "\"Für\" :\n\x01"
  diagnostics := [⟨"[ ]", 3, .warning⟩]

theorem readBack_toJson_marked : ∃ text, marked.totalDuration.isFinite = true ∧
    (∀ e ∈ marked.events, e.start.isFinite = true ∧ e.duration.isFinite = true) ∧
    marked.toJson (some 2) = .ok text ∧
    ∃ j, marked.payload = .ok j ∧ Json.read? text.toList = some j.datum ∧
      ∃ compact, marked.toJson none = .ok compact ∧
        Json.squeeze text.toList = compact.toList := by
  obtain ⟨text, htext⟩ := exists_ok (x := marked.toJson (some 2)) (by decide +kernel)
  have htotal : marked.totalDuration.isFinite = true := by decide +kernel
  have htimes : ∀ e ∈ marked.events, e.start.isFinite = true ∧ e.duration.isFinite = true := by
    simp only [marked, List.forall_mem_singleton]
    decide +kernel
  exact ⟨text, htotal, htimes, htext, readBack_toJson htotal htimes htext⟩

end TextScore.Score
