import TextScore.Midi.Arrangement
import TextScore.Proofs.Number.Arithmetic
import TextScore.Proofs.Timeline.Forward

/-!
# Ticks

A file is to play back in real time, so a note that is over when another one of its pitch starts
should have ended in the file, too.  It may end one tick behind that start: start and duration
become ticks each on their own, and seconds are not exact.  Then the end of the first note stands
behind the start of the second one, and cuts it short.  Four quarter notes in a row are enough for
that, at a tempo of 100.

How far this can go is a matter of five roundings.  The end of the first note is a sum, and each of
the three times becomes ticks in two products; every one of these is off by at most one part in
`2 ^ 53`.  So in ticks the first note ends at most five such parts behind the start of the second
one, and when the two fractions are cut off, one tick more may be lost.  The second part is what
matters: five parts in `2 ^ 53` are no tick at all as long as there are fewer than `2 ^ 50`, which
last some ten thousand years at the usual tempo.  And all of this concerns only notes that meet: a
pause of five parts in `2 ^ 53` of the time that has passed makes up for all the roundings, and
whole parts of numbers in order are in order.

That the cut is real, and that it is no more than one tick, are both shown here: the first one by a
score in which it happens, the second one for all scores, tempi and repeated notes.

## What is here

* `Playback.ticks_ok` — how close ticks are to seconds.
* `floor_add_floor_le`, `floor_add_floor_le_of_gap` — what rounding does to a start and a duration.
* `Repeats` — two notes of one pitch, the first one over when the second one starts.
* `noteOff_le_noteOn` — a repeated note ends in time, or one tick too late.
* `noteOff_gt_noteOn` — a note that does end too late.
-/

set_option autoImplicit false

namespace TextScore.Midi

open Number

/-- The ticks of a second, before rounding. -/
def Playback.rate (p : Playback) : ℚ := value (p.tempo / 60) * 960

theorem value_division : value (Float.ofNat division) = 960 := by
  have h : Double.ofFloat (Float.ofNat division) = .finite ⟨false, 960 * 2 ^ 43, -43⟩ := rfl
  rw [value_of_ofFloat h]
  norm_num

theorem Playback.value_tempo_nonneg (p : Playback) (h : p.check = .ok p) :
    0 ≤ value (p.tempo / 60) := by
  have hsixty : (0 : Float) ≤ 60 := by decide
  have hne : ((60 : Float) == 0) = false := rfl
  have hdivide : divide p.tempo 60 = .ok (p.tempo / 60) := by
    rw [divide, hne, if_neg Bool.false_ne_true]
  rw [check] at h
  split_ifs at h with htempo hvelocity
  exact value_divide_nonneg (value_nonneg_of_not_le htempo) (value_nonneg_of_le hsixty) hdivide

theorem Playback.rate_nonneg (p : Playback) (h : p.check = .ok p) : 0 ≤ p.rate :=
  mul_nonneg (p.value_tempo_nonneg h) (by norm_num)

/-- Two roundings in a row are off by twice one part in `2 ^ 53`. -/
theorem close_of_close {x y z l : ℚ} (hl : 0 ≤ l) (hy : |y - x| ≤ x / 2 ^ 53 + l)
    (hz : |z - 960 * y| ≤ 960 * y / 2 ^ 53 + l) :
    960 * x * (1 - 1 / 2 ^ 53) ^ 2 - 1000 * l ≤ z ∧
      z ≤ 960 * x * (1 + 1 / 2 ^ 53) ^ 2 + 1000 * l := by
  rw [abs_le] at hy hz
  constructor <;> linarith

/-- Ticks are the whole part of the rate times the seconds, but for rounding. -/
theorem Playback.ticks_ok (p : Playback) (hp : p.check = .ok p) {s : Float} {n : Int}
    (hs : 0 ≤ value s) (h : p.ticks s = .ok n) :
    s.isFinite = true ∧ ∃ z : ℚ, 0 ≤ z ∧ n = ⌊z⌋ ∧
      p.rate * value s * (1 - 1 / 2 ^ 53) ^ 2 - 1000 * lowest ≤ z ∧
      z ≤ p.rate * value s * (1 + 1 / 2 ^ 53) ^ 2 + 1000 * lowest := by
  have htempo := p.value_tempo_nonneg hp
  have hbeats := value_mul_nonneg hs htempo
  have hdivision : 0 ≤ value (Float.ofNat division) := value_ofNat_nonneg _
  have hproduct := value_mul_nonneg hbeats hdivision
  obtain ⟨hfinite, hn⟩ := truncate_ok hproduct h
  obtain ⟨hfinite, -, hz⟩ := value_mul hbeats hdivision hfinite
  obtain ⟨hfinite, -, hy⟩ := value_mul hs htempo hfinite
  rw [value_division, mul_comm _ 960] at hz
  have hrate : p.rate * value s = 960 * (value s * value (p.tempo / 60)) := by
    rw [rate]
    ring
  rw [hrate]
  exact ⟨hfinite, _, hproduct, hn, close_of_close lowest_nonneg hy hz⟩

section

variable {a b c x y z l : ℚ} (hx : x ≤ a * (1 + 1 / 2 ^ 53) ^ 2 + l)
  (hy : y ≤ b * (1 + 1 / 2 ^ 53) ^ 2 + l) (hz : c * (1 - 1 / 2 ^ 53) ^ 2 - l ≤ z)
  (hl : l ≤ 1 / 2 ^ 60)
include hx hy hz hl

/-- A note that is over when another one starts, in whole ticks: it may end one tick too late, and
five more for every `2 ^ 53` ticks. -/
theorem floor_add_floor_le (hx₀ : 0 ≤ x) (hy₀ : 0 ≤ y) (hab : (a + b) * (1 - 1 / 2 ^ 53) ≤ c) :
    ⌊x⌋ + ⌊y⌋ ≤ ⌊z⌋ + 1 + 5 * (⌊x⌋ + ⌊y⌋) / 2 ^ 53 := by
  have hxn : 0 ≤ ⌊x⌋ := Int.floor_nonneg.mpr hx₀
  have hyn : 0 ≤ ⌊y⌋ := Int.floor_nonneg.mpr hy₀
  have hx₁ : (⌊x⌋ : ℚ) ≤ x := Int.floor_le x
  have hy₁ : (⌊y⌋ : ℚ) ≤ y := Int.floor_le y
  have hz₂ : z < ⌊z⌋ + 1 := Int.lt_floor_add_one z
  generalize ⌊x⌋ = m at *
  generalize ⌊y⌋ = n at *
  generalize ⌊z⌋ = k at *
  obtain ⟨late, hlate⟩ : ∃ late : ℤ, m + n = k + 1 + late := ⟨m + n - k - 1, by omega⟩
  have hlate' : (m : ℚ) + n = k + 1 + late := by exact_mod_cast hlate
  have hsum : (0 : ℚ) ≤ m + n := by exact_mod_cast Int.add_nonneg hxn hyn
  -- five parts are lost in rounding, and the rest is less than a whole one
  have hshare : late * 2 ^ 53 ≤ 5 * (m + n) := by
    by_contra hshare
    have hshare' : 5 * ((m : ℚ) + n) + 1 ≤ late * 2 ^ 53 := by
      exact_mod_cast (by omega : 5 * (m + n) + 1 ≤ late * 2 ^ 53)
    linarith
  have := (Int.le_ediv_iff_mul_le (by norm_num)).mpr hshare
  omega

/-- A note that is over some time before another one starts ends in time, in whole ticks. -/
theorem floor_add_floor_le_of_gap (hz₀ : 0 ≤ z) (hab : (a + b) * (1 + 5 / 2 ^ 53) ≤ c) :
    ⌊x⌋ + ⌊y⌋ ≤ ⌊z⌋ := by
  have hzn : 0 ≤ ⌊z⌋ := Int.floor_nonneg.mpr hz₀
  have hx₁ : (⌊x⌋ : ℚ) ≤ x := Int.floor_le x
  have hy₁ : (⌊y⌋ : ℚ) ≤ y := Int.floor_le y
  have hz₂ : z < ⌊z⌋ + 1 := Int.lt_floor_add_one z
  by_contra hlate
  have hlate' : (⌊z⌋ : ℚ) + 1 ≤ ⌊x⌋ + ⌊y⌋ := by exact_mod_cast not_le.mp hlate
  have hzn' : (0 : ℚ) ≤ ⌊z⌋ := by exact_mod_cast hzn
  linarith

end

/-- The end of a note, up to rounding. -/
theorem value_endTime {e : NoteEvent} (he : e.Forward) (h : e.endTime.isFinite = true) :
    (value e.start + value e.duration) * (1 - 1 / 2 ^ 53) ≤ value e.endTime := by
  obtain ⟨-, -, hsum⟩ := value_add he.1 he.2 h
  rw [abs_le] at hsum
  have : value e.endTime = value (e.start + e.duration) := rfl
  linarith

theorem noteOf_ok {p : Playback} {e : NoteEvent} {id : String} {n : Note}
    (h : noteOf p e = .ok (some (id, n))) :
    id = e.instrumentId ∧ p.ticks e.start = .ok n.tick ∧ p.ticks e.duration = .ok n.ticks := by
  obtain ⟨pitch, -, h⟩ := bind_eq_ok h
  split_ifs at h
  · obtain ⟨tick, htick, h⟩ := bind_eq_ok h
    obtain ⟨ticks, hticks, h⟩ := bind_eq_ok h
    obtain ⟨rfl, rfl⟩ := Prod.mk.inj (Option.some.inj (Except.ok.inj h))
    exact ⟨rfl, htick, hticks⟩
  · cases h

theorem lowest_le : 1000 * lowest ≤ 1 / 2 ^ 60 := by
  have h : lowest ≤ 2 ^ (-70 : ℤ) := zpow_le_zpow_right₀ (by norm_num) (by norm_num)
  norm_num at h ⊢
  linarith

section

variable {p : Playback} (hp : p.check = .ok p) {e₁ e₂ : NoteEvent} (h₁ : e₁.Forward)
  (h₂ : e₂.Forward) {id₁ id₂ : String} {n₁ n₂ : Note}
  (hn₁ : noteOf p e₁ = .ok (some (id₁, n₁))) (hn₂ : noteOf p e₂ = .ok (some (id₂, n₂)))
include hp h₁ h₂ hn₁ hn₂

/-- Of two notes, one over when the other one starts, the first ends at most one tick too late, and
five more for every `2 ^ 53` ticks. -/
theorem noteOff_late (hle : e₁.endTime ≤ e₂.start) :
    n₁.tick + n₁.ticks ≤ n₂.tick + 1 + 5 * (n₁.tick + n₁.ticks) / 2 ^ 53 := by
  obtain ⟨-, htick₁, hticks₁⟩ := noteOf_ok hn₁
  obtain ⟨-, htick₂, -⟩ := noteOf_ok hn₂
  obtain ⟨-, x, hx₀, hxn, -, hx⟩ := p.ticks_ok hp h₁.1 htick₁
  obtain ⟨-, y, hy₀, hyn, -, hy⟩ := p.ticks_ok hp h₁.2 hticks₁
  obtain ⟨hfinite, z, -, hzn, hz, -⟩ := p.ticks_ok hp h₂.1 htick₂
  have hend := isFinite_of_le (value_add_nonneg h₁.1 h₁.2) hle hfinite
  obtain ⟨hnan, hnan'⟩ := isNaN_of_le hle
  have hseconds := (value_endTime h₁ hend).trans ((le_iff hnan hnan').mp hle)
  rw [hxn, hyn, hzn]
  refine floor_add_floor_le hx hy hz lowest_le hx₀ hy₀ ?_
  calc (p.rate * value e₁.start + p.rate * value e₁.duration) * (1 - 1 / 2 ^ 53)
      = p.rate * ((value e₁.start + value e₁.duration) * (1 - 1 / 2 ^ 53)) := by ring
    _ ≤ p.rate * value e₂.start := mul_le_mul_of_nonneg_left hseconds (p.rate_nonneg hp)

/-- If there is a pause between them, the first one ends in time. -/
theorem noteOff_in_time
    (hle : (value e₁.start + value e₁.duration) * (1 + 5 / 2 ^ 53) ≤ value e₂.start) :
    n₁.tick + n₁.ticks ≤ n₂.tick := by
  obtain ⟨-, htick₁, hticks₁⟩ := noteOf_ok hn₁
  obtain ⟨-, htick₂, -⟩ := noteOf_ok hn₂
  obtain ⟨-, x, -, hxn, -, hx⟩ := p.ticks_ok hp h₁.1 htick₁
  obtain ⟨-, y, -, hyn, -, hy⟩ := p.ticks_ok hp h₁.2 hticks₁
  obtain ⟨-, z, hz₀, hzn, hz, -⟩ := p.ticks_ok hp h₂.1 htick₂
  rw [hxn, hyn, hzn]
  refine floor_add_floor_le_of_gap hx hy hz lowest_le hz₀ ?_
  calc (p.rate * value e₁.start + p.rate * value e₁.duration) * (1 + 5 / 2 ^ 53)
      = p.rate * ((value e₁.start + value e₁.duration) * (1 + 5 / 2 ^ 53)) := by ring
    _ ≤ p.rate * value e₂.start := mul_le_mul_of_nonneg_left hle (p.rate_nonneg hp)

end

/-- Two notes of a score, by the same instrument and of the same pitch, the first one over when the
second one starts; and what they are in a file. -/
structure Repeats (s : Score) (p : Playback) (e₁ e₂ : NoteEvent) (n₁ n₂ : Note) : Prop where
  /-- The first note is in the score. -/
  mem_left : e₁ ∈ s.events
  /-- The second note is in the score. -/
  mem_right : e₂ ∈ s.events
  /-- The instrument. -/
  instrumentId : e₁.instrumentId = e₂.instrumentId
  /-- The pitch. -/
  pitch : n₁.pitch = n₂.pitch
  /-- The first note is over. -/
  ended : e₁.endTime ≤ e₂.start
  /-- The first note in the file. -/
  left : noteOf p e₁ = .ok (some (e₁.instrumentId, n₁))
  /-- The second note in the file. -/
  right : noteOf p e₂ = .ok (some (e₂.instrumentId, n₂))

/-- **Repeated notes.**  A note that is repeated when it is over ends at most one tick after the
start of the other one, as long as there are fewer than `2 ^ 53 / 5` ticks; and it ends in time if
between the two there is a pause of five parts in `2 ^ 53` of the time that has passed.  By what a
file is for, it should always end in time; `noteOff_gt_noteOn` shows that the one tick cannot be
left out. -/
theorem noteOff_le_noteOn {defaults : Defaults} {text : String} {s : Score} {p : Playback}
    (hdefaults : defaults.check = .ok defaults) (hp : p.check = .ok p)
    (hs : (Score.ofText defaults text).1 = .ok s) {e₁ e₂ : NoteEvent} {n₁ n₂ : Note}
    (h : Repeats s p e₁ e₂ n₁ n₂) :
    n₁.tick + n₁.ticks ≤ n₂.tick + 1 + 5 * (n₁.tick + n₁.ticks) / 2 ^ 53 ∧
      ((value e₁.start + value e₁.duration) * (1 + 5 / 2 ^ 53) ≤ value e₂.start →
        n₁.tick + n₁.ticks ≤ n₂.tick) := by
  rw [Score.ofText_fst] at hs
  obtain ⟨d, hd, rfl⟩ := map_eq_ok hs
  have hforward := Draft.forward_ofText hdefaults hd
  have h₁ := hforward e₁ h.mem_left
  have h₂ := hforward e₂ h.mem_right
  exact ⟨noteOff_late hp h₁ h₂ h.left h.right h.ended, noteOff_in_time hp h₁ h₂ h.left h.right⟩

/-! ## A note that ends too late

At a tempo of 100 a quarter lasts `0.6` seconds, which is no double.  The third note starts at `1.2`
and is over at `1.7999999999999998`, where the fourth one starts; but `1.2` seconds are 2304 ticks,
`0.6` are 1152, and the start of the fourth note is a little less than the sum of 3456. -/

/-- Four equal notes in a row, whose lengths in seconds are not exact. -/
def repeatedNotes : String := "tempo: 100\nm 1\np: c4 c4 c4 c4"

/-- The second note is the first one repeated, and of both and of what they are in a file something
holds. -/
def repeatsWith (p : Playback) (P : NoteEvent → NoteEvent → Note → Note → Bool)
    (e₁ e₂ : NoteEvent) : Bool :=
  match noteOf p e₁, noteOf p e₂ with
  | .ok (some (_, n₁)), .ok (some (_, n₂)) =>
    (e₁.instrumentId = e₂.instrumentId ∧ n₁.pitch = n₂.pitch ∧ e₁.endTime ≤ e₂.start) &&
      P e₁ e₂ n₁ n₂
  | _, _ => false

variable {P : NoteEvent → NoteEvent → Note → Note → Bool}

theorem repeatsWith_ok {p : Playback} {e₁ e₂ : NoteEvent} (h : repeatsWith p P e₁ e₂ = true)
    {s : Score} (h₁ : e₁ ∈ s.events) (h₂ : e₂ ∈ s.events) :
    ∃ n₁ n₂, Repeats s p e₁ e₂ n₁ n₂ ∧ P e₁ e₂ n₁ n₂ = true := by
  rw [repeatsWith] at h
  split at h
  case h_1 id₁ n₁ id₂ n₂ hn₁ hn₂ =>
    obtain ⟨hrepeats, hP⟩ := Bool.and_eq_true_iff.mp h
    obtain ⟨hid, hpitch, hended⟩ := of_decide_eq_true hrepeats
    obtain ⟨rfl, -⟩ := noteOf_ok hn₁
    obtain ⟨rfl, -⟩ := noteOf_ok hn₂
    exact ⟨n₁, n₂, ⟨h₁, h₂, hid, hpitch, hended, hn₁, hn₂⟩, hP⟩
  case h_2 => cases h

/-- A timeline that makes a score, and in which the fourth note is another one repeated. -/
def repeatsAt (P : NoteEvent → NoteEvent → Note → Note → Bool) (i : Nat)
    (x : Body × Timeline) : Bool :=
  let e := x.2.assembly.ensemble
  (e.groups.mapM (Draft.layout e)).toOption.isSome &&
    match x.2.assembly.events[i]?, x.2.assembly.events[3]? with
    | some e₁, some e₂ => repeatsWith {} P e₁ e₂
    | _, _ => false

theorem repeatsAt_ok {i : Nat} {defaults : Defaults} {text : String}
    (h : (Draft.timelineOf defaults text.toList).toOption.any (repeatsAt P i) = true) :
    ∃ s e₁ e₂ n₁ n₂, (Score.ofText defaults text).1 = .ok s ∧ Repeats s {} e₁ e₂ n₁ n₂ ∧
      P e₁ e₂ n₁ n₂ = true := by
  obtain ⟨⟨body, t⟩, ht, hfourth⟩ := exists_ok_of_any h
  obtain ⟨hgroups, hrepeats⟩ := Bool.and_eq_true_iff.mp hfourth
  obtain ⟨s, hs, hevents⟩ := Score.exists_ofText ht hgroups
  have hmem {i : Nat} {e : NoteEvent} (he : t.assembly.events[i]? = some e) : e ∈ s.events := by
    rw [hevents]
    exact List.mem_mergeSort.mpr (Array.mem_toList_iff.mpr (Array.mem_of_getElem? he))
  dsimp only at hrepeats
  split at hrepeats
  case h_1 e₁ e₂ he₁ he₂ =>
    obtain ⟨n₁, n₂, hrepeats, hP⟩ := repeatsWith_ok hrepeats (hmem he₁) (hmem he₂)
    exact ⟨s, e₁, e₂, n₁, n₂, hs, hrepeats, hP⟩
  case h_2 => cases hrepeats

/-- It does happen: the third of four equal notes ends after the fourth one starts, which is cut to
a single tick by it. -/
theorem noteOff_gt_noteOn : ∃ s e₁ e₂ n₁ n₂, (Score.ofText {} repeatedNotes).1 = .ok s ∧
    Repeats s {} e₁ e₂ n₁ n₂ ∧ n₂.tick < n₁.tick + n₁.ticks := by
  have hthird : (Draft.timelineOf {} repeatedNotes.toList).toOption.any
      (repeatsAt (fun _ _ n₁ n₂ ↦ decide (n₂.tick < n₁.tick + n₁.ticks)) 2) = true := by
    decide +kernel
  obtain ⟨s, e₁, e₂, n₁, n₂, hs, h, hlate⟩ := repeatsAt_ok hthird
  exact ⟨s, e₁, e₂, n₁, n₂, hs, h, of_decide_eq_true hlate⟩

/-- The third note ends one tick too late; between the second and the fourth there is a pause. -/
theorem noteOff_le_noteOn_repeated :
    Defaults.check {} = .ok {} ∧ Playback.check {} = .ok {} ∧
    (∃ s e₁ e₂ n₁ n₂, (Score.ofText {} repeatedNotes).1 = .ok s ∧ Repeats s {} e₁ e₂ n₁ n₂ ∧
      n₁.tick + n₁.ticks = 3456 ∧ n₂.tick = 3455 ∧
      n₁.tick + n₁.ticks ≤ n₂.tick + 1 + 5 * (n₁.tick + n₁.ticks) / 2 ^ 53) ∧
    ∃ s e₁ e₂ n₁ n₂, (Score.ofText {} repeatedNotes).1 = .ok s ∧ Repeats s {} e₁ e₂ n₁ n₂ ∧
      (value e₁.start + value e₁.duration) * (1 + 5 / 2 ^ 53) ≤ value e₂.start ∧
      n₁.tick + n₁.ticks ≤ n₂.tick := by
  have hdefaults : Defaults.check {} = .ok {} := by
    rw [Defaults.check, if_neg (by decide), if_neg (by decide), if_pos (by decide)]
  have hplayback : Playback.check {} = .ok {} := by
    rw [Playback.check, if_neg (by decide), if_pos (by decide)]
  refine ⟨hdefaults, hplayback, ?_, ?_⟩
  · have hthird : (Draft.timelineOf {} repeatedNotes.toList).toOption.any (repeatsAt
        (fun _ _ n₁ n₂ ↦ decide (n₁.tick + n₁.ticks = 3456 ∧ n₂.tick = 3455)) 2) = true := by
      decide +kernel
    obtain ⟨s, e₁, e₂, n₁, n₂, hs, h, hshown⟩ := repeatsAt_ok hthird
    obtain ⟨hoff, hon⟩ := of_decide_eq_true hshown
    exact ⟨s, e₁, e₂, n₁, n₂, hs, h, hoff, hon, (noteOff_le_noteOn hdefaults hplayback hs h).1⟩
  · have hsecond : (Draft.timelineOf {} repeatedNotes.toList).toOption.any (repeatsAt
        (fun e₁ e₂ _ _ ↦ decide (Double.ofFloat e₁.start = .finite ⟨false, 5404319552844595, -53⟩ ∧
          Double.ofFloat e₁.duration = .finite ⟨false, 5404319552844595, -53⟩ ∧
          Double.ofFloat e₂.start = .finite ⟨false, 8106479329266892, -52⟩)) 1) = true := by
      decide +kernel
    obtain ⟨s, e₁, e₂, n₁, n₂, hs, h, hshown⟩ := repeatsAt_ok hsecond
    obtain ⟨hstart, hduration, hnext⟩ := of_decide_eq_true hshown
    have hpause : (value e₁.start + value e₁.duration) * (1 + 5 / 2 ^ 53) ≤ value e₂.start := by
      rw [value_of_ofFloat hstart, value_of_ofFloat hduration, value_of_ofFloat hnext]
      norm_num
    exact ⟨s, e₁, e₂, n₁, n₂, hs, h, hpause,
      (noteOff_le_noteOn hdefaults hplayback hs h).2 hpause⟩

end TextScore.Midi
