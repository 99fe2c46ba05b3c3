import Mathlib.Data.List.TakeWhile
import TextScore.Pitch
import TextScore.Proofs.Noted
import TextScore.Proofs.Number.Numeral
import TextScore.Score.Basic
import TextScore.Staff

/-!
# Names of pitches are read back

A pitch is the same as its number of semitones, and its name, if it can be written, the same as its
MIDI number: the text between them loses nothing, in no octave and on neither side of zero.

The name of a pitch goes into the events, and it could stand in a score as well.  Two readers take
it apart: the one for written pitches knows flats, double accidentals and pitches without an octave,
the one for MIDI numbers knows the twelve names only.  On names they agree.  What has to be ruled
out for each is that it takes the class and the octave apart in another place: an octave that starts
with a minus sign is no accidental, and a sharp is no part of an octave.

## What is here

* `Pitch.semitone_transpose` — a transposition adds its semitones.
* `Pitch.midiNumber_of_name` — the MIDI number of a name is that of the pitch.
* `Pitch.name_inj` — two pitches of one name are the same.
* `Pitch.read?_name` — a name as a written pitch.
* `Pitch.Names` — both readers get the pitch from the name.
* `Pitch.names_name` — they do, before and after a transposition.

Octaves are not bounded, except that their numerals must be short enough to be written; that is the
one hypothesis, and it is asked of the pitch before and of the pitch after a transposition
separately, since a transposition can turn the longest octave into a longer one.
-/

set_option autoImplicit false

namespace TextScore

open Text Number

/-! ## Names of pitches

Semitones are the normal form.  What is stated of pitches is an equation between integers there,
and division with remainder toward minus infinity does for the octaves below zero what it does for
those above. -/

namespace Pitch

/-! ### Semitones -/

theorem semitone_ofSemitone (n : Int) : (ofSemitone n).semitone = n := by
  have hclass : (n % 12).toNat % 12 = (n % 12).toNat := Nat.mod_eq_of_lt (by omega)
  rw [ofSemitone, semitone]
  show n / 12 * 12 + (((n % 12).toNat % 12 : Nat) : Int) = n
  rw [hclass]
  omega

theorem ofSemitone_semitone (p : Pitch) : ofSemitone p.semitone = p := by
  rcases p with ⟨⟨c, hc⟩, octave⟩
  have hmod : (octave * 12 + (c : Int)) % 12 = c := by omega
  have hdiv : (octave * 12 + (c : Int)) / 12 = octave := by omega
  rw [ofSemitone, semitone, hmod, hdiv, Int.toNat_natCast]
  exact congrArg₂ Pitch.mk (Fin.ext (Nat.mod_eq_of_lt hc)) rfl

theorem semitone_inj {p q : Pitch} (h : p.semitone = q.semitone) : p = q := by
  rw [← ofSemitone_semitone p, h, ofSemitone_semitone]

/-- A transposition adds its semitones. -/
theorem semitone_transpose (p : Pitch) (n : Int) : (p.transpose n).semitone = p.semitone + n :=
  semitone_ofSemitone _

theorem transpose_transpose (p : Pitch) (m n : Int) :
    (p.transpose m).transpose n = p.transpose (m + n) := by
  refine semitone_inj ?_
  rw [semitone_transpose, semitone_transpose, semitone_transpose, Int.add_assoc]

theorem transpose_zero (p : Pitch) : p.transpose 0 = p := by
  rw [transpose, Int.add_zero, ofSemitone_semitone]

/-! ### Names -/

/-- A pitch whose octave is short enough has a name. -/
theorem name_of_isWritable {p : Pitch} (h : isWritable p.octave = true) :
    p.name = .ok (String.ofList (className p.pitchClass ++ signedDigits p.octave)) := by
  rw [name, writeInt, if_pos h]
  rfl

theorem name_ok {p : Pitch} {s : String} (h : p.name = .ok s) :
    isWritable p.octave = true ∧
      s = String.ofList (className p.pitchClass ++ signedDigits p.octave) := by
  by_cases hoctave : isWritable p.octave = true
  · rw [name_of_isWritable hoctave] at h
    exact ⟨hoctave, (Except.ok.inj h).symm⟩
  · rw [name, writeInt, if_neg hoctave] at h
    cases h

/-- What follows the class of a pitch is its octave, as a numeral starts with no sharp. -/
theorem splitNoteName_name (c : Fin 12) {s : List Char} (hne : s ≠ [])
    (hsharp : ∀ x ∈ s.head?, x ≠ '#') : splitNoteName (className c ++ s) = (className c, s) := by
  obtain ⟨x, s, rfl⟩ := List.exists_cons_of_ne_nil hne
  have hx : x ≠ '#' := hsharp x rfl
  have hplain (l : Char) : splitNoteName ([l] ++ x :: s) = ([l], x :: s) := by
    rw [List.singleton_append, splitNoteName]
    rintro _ ⟨⟩
    exact hx rfl
  have hclass : ∀ c, className c = [(className c).headD 'C'] ∨
      className c = [(className c).headD 'C', '#'] := by decide
  rcases hclass c with hl | hl
  · rw [hl, hplain]
  · rw [hl]
    rfl

theorem findIdx?_className :
    ∀ c : Fin 12, classNames.findIdx? (· == className c) = some c.val := by decide

theorem readOctave?_signedDigits (n : Int) :
    readOctave? (signedDigits n) = some (signedDigits n) := by
  obtain ⟨m, hm⟩ := dropSign_signedDigits n
  have hdigits : (digits m).all isDigit = true :=
    List.all_eq_true.mpr fun c hc ↦ isDigit_of_mem_digits hc
  have hempty : (digits m).isEmpty = false := by
    rw [List.isEmpty_eq_false_iff]
    exact digits_ne_nil m
  rw [readOctave?, trimNumeral_signedDigits, dropUnderscores?_signedDigits, Option.bind_eq_bind,
    Option.bind_some]
  dsimp only
  rw [hm, hdigits, hempty]
  rfl

/-- The MIDI number of a name is that of the pitch. -/
theorem midiNumber_of_name {p : Pitch} {s : String} (h : p.name = .ok s) :
    midiNumber s = .ok (p.semitone + 12) := by
  obtain ⟨hoctave, rfl⟩ := name_ok h
  have hhead (x : Char) (hx : x ∈ (signedDigits p.octave).head?) : x ≠ '#' := by
    have hdigit : ∀ d < 10, Nat.digitChar d ≠ '#' := by decide
    rcases mem_signedDigits (List.mem_of_mem_head? hx) with rfl | ⟨d, hd, rfl⟩
    · decide
    · exact hdigit d hd
  have hne : signedDigits p.octave ≠ [] := by
    cases p.octave with
    | ofNat n => exact digits_ne_nil n
    | negSucc n => exact List.cons_ne_nil _ _
  rw [midiNumber, String.toList_ofList, splitNoteName_name _ hne hhead]
  dsimp only
  rw [findIdx?_className, readOctave?_signedDigits]
  dsimp only
  rw [readInt_signedDigits hoctave, ok_bind, semitone]
  exact congrArg Except.ok (by omega)

/-- Two pitches of one name are the same. -/
theorem name_inj {p q : Pitch} {s : String} (hp : p.name = .ok s) (hq : q.name = .ok s) :
    p = q := by
  have hmidi := (midiNumber_of_name hp).symm.trans (midiNumber_of_name hq)
  exact semitone_inj (add_right_cancel (Except.ok.inj hmidi))

end Pitch

/-! ## Names of pitches are read back

The twelve classes are gone through one by one where their letters matter; the octave is a numeral
of which only its first character is looked at. -/

namespace Pitch

/-! ### A name as a written pitch -/

/-- No accidental starts as a numeral does. -/
theorem splitAccidental_signedDigits (n : Int) :
    splitAccidental (signedDigits n) = (0, signedDigits n) := by
  have hdigit : ∀ d < 10,
      (accidentals.any fun a ↦ a.1.head? == some (Nat.digitChar d)) = false := by
    decide
  have hhead (x : Char) (hx : x ∈ signedDigits n) :
      (accidentals.any fun a ↦ a.1.head? == some x) = false := by
    rcases mem_signedDigits hx with rfl | ⟨d, hd, rfl⟩
    · decide
    · exact hdigit d hd
  have hnone : accidentals.find? (fun a ↦ a.1.isPrefixOf (signedDigits n)) = none := by
    refine List.find?_eq_none.mpr fun a ha hprefix ↦ ?_
    have hne : ∀ a ∈ accidentals, a.1 ≠ [] := by decide
    obtain ⟨x, r, hx⟩ := List.exists_cons_of_ne_nil (hne a ha)
    obtain ⟨s, hs⟩ := List.isPrefixOf_iff_prefix.mp hprefix
    have hmem : x ∈ signedDigits n := by simp [← hs, hx]
    simpa [hx] using List.any_eq_false.mp (hhead x hmem) a ha
  rw [splitAccidental, hnone]

theorem splitAccidental_sharp (n : Int) :
    splitAccidental ('#' :: signedDigits n) = (1, signedDigits n) := by
  have hdigit : ∀ d < 10, ('#' == Nat.digitChar d) = false := by decide
  cases hs : signedDigits n with
  | nil => rfl
  | cons x s =>
    have hx : ('#' == x) = false := by
      rcases mem_signedDigits (hs ▸ List.mem_cons_self) with rfl | ⟨d, hd, rfl⟩
      · decide
      · exact hdigit d hd
    simp [splitAccidental, accidentals, List.find?, List.isPrefixOf, hx]

theorem octaveNumeral?_signedDigits (n : Int) :
    octaveNumeral? (signedDigits n) = some (signedDigits n) := by
  have hall (m : Nat) : (digits m).takeWhile isDigit = digits m :=
    List.takeWhile_eq_self_iff.mpr fun _ ↦ isDigit_of_mem_digits
  cases n with
  | ofNat n =>
    rw [signedDigits, octaveNumeral?.eq_def]
    split
    case h_1 s hs =>
      exact absurd (isDigit_of_mem_digits (hs ▸ List.mem_cons_self)) (by decide)
    case h_2 => simp [hall, digits_ne_nil]
  | negSucc n => simp [signedDigits, octaveNumeral?, hall, digits_ne_nil]

/-- The letter of a pitch class is its own or, with a sharp, that of the class below. -/
theorem className_cases : ∀ c : Fin 12,
    (className c = [(className c).headD 'C'] ∧
        letterOffset? ((className c).headD 'C') = some c.val) ∨
      className c = [(className c).headD 'C', '#'] ∧
        letterOffset? ((className c).headD 'C') = some (c.val - 1) ∧ 1 ≤ c.val := by
  decide

/-- A name is a written pitch with its own octave. -/
theorem read?_name (p : Pitch) :
    ∃ letter shift, Spelling.read? (className p.pitchClass ++ signedDigits p.octave) =
        some ⟨letter, shift, some (signedDigits p.octave)⟩ ∧
      (letter : Int) + shift = p.pitchClass.val := by
  rcases className_cases p.pitchClass with ⟨hname, hletter⟩ | ⟨hname, hletter, hpos⟩
  · refine ⟨p.pitchClass.val, 0, ?_, Int.add_zero _⟩
    rw [hname, List.singleton_append, Spelling.read?, hletter, splitAccidental_signedDigits]
    simp [octaveNumeral?_signedDigits]
  · refine ⟨p.pitchClass.val - 1, 1, ?_, by omega⟩
    rw [hname, List.cons_append, List.singleton_append, Spelling.read?, hletter,
      splitAccidental_sharp]
    simp [octaveNumeral?_signedDigits]

/-! ### Both readers -/

/-- The text stands for the pitch. -/
structure Names (s : String) (p : Pitch) : Prop where
  /-- On every staff it is read as the pitch, and the staff remembers the octave. -/
  resolved : ∀ st : Staff,
    st.resolvePitch s.toList = .ok ({ st with lastOctave := p.octave }, some p)
  /-- An event with this pitch has the MIDI number of the pitch. -/
  midi : ∀ e : NoteEvent, e.pitch = s → e.midiNote = .ok (p.semitone + 12)

/-- A name stands for its pitch. -/
theorem names_of_name {p : Pitch} {s : String} (h : p.name = .ok s) : Names s p where
  resolved st := by
    obtain ⟨hoctave, rfl⟩ := name_ok h
    obtain ⟨letter, shift, hread, hclass⟩ := read?_name p
    have hsemitone : p.octave * 12 + (letter : Int) + shift = p.semitone := by
      rw [Int.add_assoc, hclass, semitone]
    rw [Staff.resolvePitch, String.toList_ofList, hread]
    dsimp only
    rw [readInt_signedDigits hoctave, ok_bind, hsemitone, ofSemitone_semitone]
    rfl
  midi e he := by rw [NoteEvent.midiNote, he, midiNumber_of_name h]

/-- The class of a transposed pitch goes around the octave. -/
theorem pitchClass_transpose (p : Pitch) (n : Int) :
    ((p.transpose n).pitchClass.val : Int) = (p.semitone + n) % 12 := by
  have hclass : ((p.semitone + n) % 12).toNat % 12 = ((p.semitone + n) % 12).toNat :=
    Nat.mod_eq_of_lt (by omega)
  rw [transpose, ofSemitone]
  show ((((p.semitone + n) % 12).toNat % 12 : Nat) : Int) = _
  rw [hclass]
  omega

/-- **Names are read back.**  A pitch whose octave can be written has a name, and both readers get
the pitch from it.  Transpositions stay within the twelve classes and add up, and the name of a
transposed pitch is read as that many semitones more.  Nothing is assumed about the direction or the
size of a transposition: it may go through any number of octaves, and below zero. -/
theorem names_name (p : Pitch) :
    (isWritable p.octave = true → ∃ s, p.name = .ok s ∧ Names s p) ∧
      ∀ n : Int,
        ((p.transpose n).pitchClass.val : Int) = (p.semitone + n) % 12 ∧
        (∀ m, (p.transpose n).transpose m = p.transpose (n + m)) ∧
        (isWritable (p.transpose n).octave = true →
          ∃ s q, (p.transpose n).name = .ok s ∧ Names s q ∧ q.semitone = p.semitone + n) := by
  refine ⟨fun h ↦ ?_, fun n ↦ ⟨pitchClass_transpose p n, transpose_transpose p n, fun h ↦ ?_⟩⟩
  · have hname := name_of_isWritable h
    exact ⟨_, hname, names_of_name hname⟩
  · have hname := name_of_isWritable h
    exact ⟨_, p.transpose n, hname, names_of_name hname, semitone_transpose p n⟩

/-- Two names below octave zero: `A#-1`, and eleven semitones lower `B-2`. -/
theorem names_name_below_zero :
    isWritable (ofSemitone (-2)).octave = true ∧
      isWritable ((ofSemitone (-2)).transpose (-11)).octave = true ∧
      (ofSemitone (-2)).name = .ok "A#-1" ∧ Names "A#-1" (ofSemitone (-2)) ∧
      ((ofSemitone (-2)).transpose (-11)).name = .ok "B-2" ∧
      ∃ q, Names "B-2" q ∧ q.semitone = -13 := by
  have hname : (ofSemitone (-2)).name = .ok "A#-1" :=
    (name_of_isWritable (by decide +kernel)).trans (congrArg Except.ok (by decide +kernel))
  have hname' : ((ofSemitone (-2)).transpose (-11)).name = .ok "B-2" :=
    (name_of_isWritable (by decide +kernel)).trans (congrArg Except.ok (by decide +kernel))
  obtain ⟨hnames, htranspose⟩ := names_name (ofSemitone (-2))
  obtain ⟨s, hs, hp⟩ := hnames (by decide +kernel)
  obtain ⟨t, q, ht, hq, hsemitone⟩ := (htranspose (-11)).2.2 (by decide +kernel)
  obtain rfl : "A#-1" = s := Except.ok.inj (hname.symm.trans hs)
  obtain rfl : "B-2" = t := Except.ok.inj (hname'.symm.trans ht)
  exact ⟨by decide +kernel, by decide +kernel, hname, hp, hname', q, hq, hsemitone⟩

end Pitch

end TextScore
