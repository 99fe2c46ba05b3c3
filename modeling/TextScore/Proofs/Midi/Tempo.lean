import TextScore.Proofs.Midi.Hanging
import TextScore.Proofs.Number.Quotient

/-!
# The tempo of a file

A file plays at the tempo that it names, so it should name that of the playback, for every tempo
that can be asked for.  It does so for most of them, but not for the lowest.

A file names its tempo by the whole microseconds of a quarter note, in three bytes.  From a tempo of
one on there is a number of microseconds, but below a tempo of about three and a half the three
bytes do not hold it: its high byte is lost, and the file is played many times too fast.

The limit is exact.  It is `60000000 / 2 ^ 24`, which is a double.  The microseconds are the whole
part of a quotient of doubles, which is rounded; but no quotient is rounded across a double, and
`2 ^ 24` is one, so a tempo above the limit has less than `2 ^ 24` microseconds, rounded or not.  At
the limit it has exactly so many, and the three bytes hold none of them.

That the file is played in the right time is a second matter: ticks should be seconds again at the
tempo of the playback.  Each of them is off by its fraction, which was cut off, and by rounding.

## What is here

* `Playback.microseconds_lt_iff` — at which tempi three bytes are enough.
* `Playback.seconds_of_ticks` — ticks are seconds again at the tempo of the playback.
* `firstTrack?_arrangement` — the tempo in the file of an arrangement.
* `namesTempo_fileBytes` — when the file has the tempo of the playback.
* `misnamed_largo` — a file that has another one.
-/

set_option autoImplicit false

namespace TextScore.Midi

open Number

/-! ## Microseconds

Usual tempi are those from one to a thousand, which is what can be asked for. -/

theorem value_minute : value 60000000 = 60000000 := by
  have h : Double.ofFloat 60000000 = .finite ⟨false, 60000000 * 2 ^ 27, -27⟩ := rfl
  rw [value_of_ofFloat h]
  norm_num

/-- The limit is a double. -/
theorem value_limit : value 3.5762786865234375 = (8053063680000000 : ℕ) * 2 ^ (-51 : ℤ) :=
  have h : Double.ofFloat 3.5762786865234375 = .finite ⟨false, 8053063680000000, -51⟩ := rfl
  value_of_ofFloat h

section

variable {p : Playback} (hlow : 1 ≤ p.tempo) (hhigh : p.tempo ≤ 1000)

include hlow hhigh

/-- The value of a usual tempo. -/
theorem Playback.value_tempo :
    p.tempo.isFinite = true ∧ 1 ≤ value p.tempo ∧ value p.tempo ≤ 1000 := by
  have hone : value 1 = 1 := by
    have h : Double.ofFloat 1 = .finite ⟨false, 2 ^ 52, -52⟩ := rfl
    rw [value_of_ofFloat h]
    norm_num
  have hthousand : value 1000 = 1000 := by
    have h : Double.ofFloat 1000 = .finite ⟨false, 1000 * 2 ^ 43, -43⟩ := rfl
    rw [value_of_ofFloat h]
    norm_num
  obtain ⟨hnan₁, hnan⟩ := isNaN_of_le hlow
  obtain ⟨-, hnan₂⟩ := isNaN_of_le hhigh
  have hlow' := (le_iff hnan₁ hnan).mp hlow
  have hhigh' := (le_iff hnan hnan₂).mp hhigh
  rw [hone] at hlow'
  rw [hthousand] at hhigh'
  exact ⟨isFinite_of_le (by linarith) hhigh rfl, hlow', hhigh'⟩

/-- The quotient of which the microseconds of a quarter note are the whole part. -/
theorem Playback.value_quarter :
    (60000000 / p.tempo).isFinite = true ∧ 0 ≤ value (60000000 / p.tempo) ∧
      |value (60000000 / p.tempo) - 60000000 / value p.tempo| ≤
        60000000 / value p.tempo / 2 ^ 52 + lowest ∧
      (∀ z : Float, z.isFinite = true → 0 < value z → value z ≤ 60000000 / value p.tempo →
        value z ≤ value (60000000 / p.tempo)) ∧
      ∀ z : Float, z.isFinite = true → 60000000 / value p.tempo < value z →
        value (60000000 / p.tempo) ≤ value z := by
  obtain ⟨hfinite, hlow', hhigh'⟩ := p.value_tempo hlow hhigh
  have hfinite' : (60000000 : Float).isFinite = true := rfl
  have hpos : 0 < value p.tempo := by linarith
  -- the quotient of a usual tempo is far from the ends of the doubles
  have hle : value p.tempo ≤ value 60000000 * 2 ^ 100 := by
    rw [value_minute]
    norm_num
    linarith
  have hlt : value 60000000 / value p.tempo < 2 ^ 100 := by
    rw [value_minute]
    exact (div_le_self (by norm_num) hlow').trans_lt (by norm_num)
  obtain ⟨hquotient, hnonneg, -⟩ := value_div hfinite' hfinite hpos hle hlt
  have hclose := value_div_close hfinite' hfinite hpos hle hlt
  have habove {z : Float} (hz : z.isFinite = true) (hzpos : 0 < value z) :=
    le_value_div hfinite' hfinite hpos hle hlt hz hzpos
  have hbelow {z : Float} (hz : z.isFinite = true) :=
    value_div_le_of_lt hfinite' hfinite hpos hle hlt hz
  rw [value_minute] at hclose habove hbelow
  exact ⟨hquotient, hnonneg, hclose, fun z ↦ habove, fun z ↦ hbelow⟩

/-- At a usual tempo a quarter note has whole microseconds, and they have room in four bytes. -/
theorem Playback.microseconds_ok : ∃ n, p.microseconds = .ok n ∧ 0 ≤ n ∧ n < 2 ^ 32 := by
  obtain ⟨-, hlow', -⟩ := p.value_tempo hlow hhigh
  obtain ⟨hquotient, hnonneg, hclose, -⟩ := p.value_quarter hlow hhigh
  obtain ⟨n, hn⟩ := truncate_ok_iff.mpr hquotient
  obtain ⟨-, hfloor⟩ := truncate_ok hnonneg hn
  have hratio : 60000000 / value p.tempo ≤ 60000000 := div_le_self (by norm_num) hlow'
  have hlowest : lowest ≤ 1 := zpow_le_one_of_nonpos₀ (by norm_num) (by norm_num)
  have hbound := (abs_le.mp hclose).2
  refine ⟨n, hn, ?_, ?_⟩
  · rw [hfloor]
    exact Int.floor_nonneg.mpr hnonneg
  · rw [hfloor, Int.floor_lt]
    push_cast
    linarith

/-- Up to the limit the quotient is not below `2 ^ 24`, and it is not rounded below it. -/
theorem Playback.le_value_quarter (h : value p.tempo ≤ value 3.5762786865234375) :
    2 ^ 24 ≤ value (60000000 / p.tempo) := by
  have hroom : value 16777216 = 2 ^ 24 := by
    have h : Double.ofFloat 16777216 = .finite ⟨false, 2 ^ 52, -28⟩ := rfl
    rw [value_of_ofFloat h]
    norm_num
  obtain ⟨-, hlow', -⟩ := p.value_tempo hlow hhigh
  obtain ⟨-, -, -, habove, -⟩ := p.value_quarter hlow hhigh
  have hpos : 0 < value p.tempo := by linarith
  have hquotient : value 16777216 ≤ 60000000 / value p.tempo := by
    rw [le_div_iff₀ hpos, hroom]
    rw [value_limit] at h
    norm_num at h ⊢
    linarith
  rw [← hroom]
  exact habove 16777216 rfl (by rw [hroom]; norm_num) hquotient

/-- The next tempo above the limit makes a quotient that is rounded below `2 ^ 24`. -/
theorem Playback.value_quarter_lt (h : value 3.5762786865234375 < value p.tempo) :
    value (60000000 / p.tempo) < 2 ^ 24 := by
  have hbelow : Double.ofFloat 16777215.999999998 = .finite ⟨false, 2 ^ 53 - 1, -29⟩ := rfl
  obtain ⟨hfinite, hlow', -⟩ := p.value_tempo hlow hhigh
  obtain ⟨-, -, -, -, hunder⟩ := p.value_quarter hlow hhigh
  have hpos : 0 < value p.tempo := by linarith
  -- there is no tempo between the limit and the next double
  have hnext : ((8053063680000000 : ℕ) + 1 : ℚ) * 2 ^ (-51 : ℤ) ≤ value p.tempo := by
    obtain ⟨r, f, hr, htempo⟩ := exists_rounded hfinite hpos
    rw [value_limit, htempo] at h
    rw [htempo]
    by_contra hbetween
    exact absurd (le_of_lt_next (.inl (by norm_num)) hr (not_le.mp hbetween)) (not_le.mpr h)
  have hquotient : 60000000 / value p.tempo < value 16777215.999999998 := by
    rw [div_lt_iff₀ hpos, value_of_ofFloat hbelow]
    norm_num at hnext ⊢
    linarith
  refine (hunder 16777215.999999998 rfl hquotient).trans_lt ?_
  rw [value_of_ofFloat hbelow]
  norm_num

/-- A quotient that is not below `2 ^ 24` is not rounded below it, and the next tempo above makes a
quotient that is rounded below it: the limit is exact. -/
theorem Playback.microseconds_lt_iff {n : ℤ} (hn : p.microseconds = .ok n) :
    n < 2 ^ 24 ↔ 3.5762786865234375 < p.tempo := by
  obtain ⟨hfinite, -, -⟩ := p.value_tempo hlow hhigh
  obtain ⟨-, hnonneg, -⟩ := p.value_quarter hlow hhigh
  have hnan : (3.5762786865234375 : Float).isNaN = false := rfl
  rw [lt_iff hnan (isNaN_of_isFinite hfinite), (truncate_ok hnonneg hn).2, Int.floor_lt]
  push_cast
  constructor
  · intro hlt
    by_contra hle
    exact absurd (p.le_value_quarter hlow hhigh (not_lt.mp hle)) (not_le.mpr hlt)
  · exact p.value_quarter_lt hlow hhigh

/-! ## Ticks

The rate of a playback is sixteen times its tempo: a quarter note has 960 ticks, and a minute 60
seconds. -/

/-- A second has sixteen ticks for every quarter note in a minute, but for rounding. -/
theorem Playback.rate_close : |p.rate - 16 * value p.tempo| ≤ 16 * value p.tempo / 2 ^ 51 := by
  have hsixty : Double.ofFloat 60 = .finite ⟨false, 60 * 2 ^ 47, -47⟩ := rfl
  have hvalue : value 60 = 60 := by
    rw [value_of_ofFloat hsixty]
    norm_num
  obtain ⟨hfinite, hlow', hhigh'⟩ := p.value_tempo hlow hhigh
  have hle : value 60 ≤ value p.tempo * 2 ^ 100 := by
    rw [hvalue]
    norm_num
    linarith
  have hlt : value p.tempo / value 60 < 2 ^ 100 := by
    rw [hvalue]
    norm_num
    linarith
  have hclose := value_div_close hfinite rfl (by rw [hvalue]; norm_num) hle hlt
  have hlowest : lowest ≤ 2 ^ (-70 : ℤ) := zpow_le_zpow_right₀ (by norm_num) (by norm_num)
  rw [hvalue, abs_le] at hclose
  rw [rate, abs_le]
  norm_num at hlowest
  constructor <;> linarith

/-- At the tempo of the playback, ticks are the seconds of which they were made, but for one tick
that was cut off and one part in `2 ^ 49`. -/
theorem Playback.seconds_of_ticks (hp : p.check = .ok p) {s : Float} {k : ℤ} (hs : 0 ≤ value s)
    (hk : p.ticks s = .ok k) : |k / (16 * value p.tempo) - value s| ≤
      value s / 2 ^ 49 + (1 + 1 / 2 ^ 20) / (16 * value p.tempo) := by
  obtain ⟨-, hlow', -⟩ := p.value_tempo hlow hhigh
  obtain ⟨-, z, -, rfl, hzlow, hzhigh⟩ := p.ticks_ok hp hs hk
  have hrate := abs_le.mp (p.rate_close hlow hhigh)
  have hpos : 0 < 16 * value p.tempo := by linarith
  have hfloor := Int.floor_le z
  have hfloor' := Int.lt_floor_add_one z
  have hsmall := lowest_le
  -- in ticks, the rate and the product are off by a small part each
  have hupper := mul_le_mul_of_nonneg_right hrate.2 hs
  have hlower := mul_le_mul_of_nonneg_right hrate.1 hs
  have hticks : 0 ≤ 16 * value p.tempo * value s := mul_nonneg hpos.le hs
  have hsplit : (⌊z⌋ : ℚ) / (16 * value p.tempo) - value s =
      (⌊z⌋ - 16 * value p.tempo * value s) / (16 * value p.tempo) := by
    rw [sub_div, mul_div_cancel_left₀ _ hpos.ne']
  have hsum : value s / 2 ^ 49 + (1 + 1 / 2 ^ 20) / (16 * value p.tempo) =
      (16 * value p.tempo * value s / 2 ^ 49 + (1 + 1 / 2 ^ 20)) / (16 * value p.tempo) := by
    rw [mul_div_assoc, add_div (_ * _), mul_div_cancel_left₀ _ hpos.ne']
  rw [hsplit, hsum, abs_div, abs_of_pos hpos, div_le_div_iff_of_pos_right hpos, abs_le]
  constructor <;> nlinarith

end

/-! ## The first track

The tempo stands in the first track, which is read here without the others.  So nothing has to be
known of the notes. -/

/-- The events of the first track of a file, behind a header of fourteen bytes. -/
def firstTrack? (bs : List UInt8) : Option (List Event) := do
  let (_, bs) ← readBytes? 14 bs
  let (es, _) ← readChunk? (some 4) bs
  return es

theorem length_field {width : ℕ} {n : ℤ} {bs : List UInt8} (h : field width n = .ok bs) :
    bs.length = width := by
  obtain ⟨-, -, rfl⟩ := field_ok h
  exact length_bigEndian width _

theorem length_headerChunk {count : ℕ} {bs : List UInt8} (h : headerChunk count = .ok bs) :
    bs.length = 14 := by
  obtain ⟨size, hsize, h⟩ := bind_eq_ok h
  obtain ⟨format, hformat, h⟩ := bind_eq_ok h
  obtain ⟨count, hcount, h⟩ := bind_eq_ok h
  obtain ⟨division, hdivision, h⟩ := bind_eq_ok h
  obtain rfl := Except.ok.inj h
  simp [length_field hsize, length_field hformat, length_field hcount, length_field hdivision,
    chunkName]

/-- The first track is read back, whatever the others are. -/
theorem firstTrack?_fileBytes {es : List Event} {tracks : List (List Event)} {bs : List UInt8}
    (h : fileBytes (es :: tracks) = .ok bs) (hfits : ∀ e ∈ es, e.Fits)
    (hadmitted : isAdmitted (some 4) es = true) :
    firstTrack? bs = some ((Event.sort es).map Event.stored) := by
  obtain ⟨header, hheader, h⟩ := bind_eq_ok h
  obtain ⟨chunks, hchunks, h⟩ := bind_eq_ok h
  obtain rfl := Except.ok.inj h
  obtain ⟨chunk, chunks, hchunk, -, rfl⟩ := List.forall₂_cons_left_iff.mp (mapM_ok hchunks)
  have hread := readBytes?_append header (chunk ++ chunks.flatten)
  rw [length_headerChunk hheader] at hread
  rw [List.flatten_cons, firstTrack?, hread]
  simp [readChunk?_append .standard hchunk hfits, hadmitted]

section

variable {p : Playback} {s : Score} {a : Arrangement} {bs : List UInt8} {n : ℤ}

theorem Arrangement.microseconds_eq (hn : p.microseconds = .ok n)
    (ha : Arrangement.ofScore p s = .ok a) : a.microseconds = n := by
  rw [ofScore, hn, ok_bind] at ha
  obtain ⟨texts, -, ha⟩ := bind_eq_ok ha
  obtain ⟨named, -, ha⟩ := bind_eq_ok ha
  obtain ⟨notes, -, ha⟩ := bind_eq_ok ha
  obtain rfl := Except.ok.inj ha
  rfl

/-- The first track of an arrangement holds the low three bytes of the microseconds. -/
theorem firstTrack?_arrangement (hn : p.microseconds = .ok n)
    (ha : Arrangement.ofScore p s = .ok a) (hbs : a.fileBytes = .ok bs) :
    firstTrack? bs = some [⟨0, .tempo (n % 2 ^ 24)⟩] := by
  rw [firstTrack?_fileBytes hbs, Arrangement.microseconds_eq hn ha, Event.sort,
    List.mergeSort_singleton]
  · rfl
  · intro e he
    obtain rfl := List.mem_singleton.mp he
    exact ⟨le_rfl, trivial⟩
  · exact isAdmitted_tempo _

/-- What a file says about its tempo. -/
structure NamesTempo (p : Playback) (bs : List UInt8) (n : ℤ) : Prop where
  /-- The microseconds of a quarter note at the tempo of the playback. -/
  quarter : p.microseconds = .ok n
  /-- The first track holds what three bytes can hold of them. -/
  track : firstTrack? bs = some [⟨0, .tempo (n % 2 ^ 24)⟩]
  /-- They hold all of it above this tempo, and only there. -/
  whole : n % 2 ^ 24 = n ↔ 3.5762786865234375 < p.tempo
  /-- Ticks are seconds again at the tempo of the playback, but for one tick and for rounding. -/
  seconds : ∀ (x : Float) (k : ℤ), 0 ≤ value x → p.ticks x = .ok k →
    |k / (16 * value p.tempo) - value x| ≤
      value x / 2 ^ 49 + (1 + 1 / 2 ^ 20) / (16 * value p.tempo)

/-- **The tempo of a file.**  At a usual tempo the file names the microseconds of a quarter note
exactly if the tempo is above `60000000 / 2 ^ 24`.  Otherwise it names what is left of them in three
bytes, and is written all the same. -/
theorem namesTempo_fileBytes (hlow : 1 ≤ p.tempo) (hhigh : p.tempo ≤ 1000) (hp : p.check = .ok p)
    (ha : Arrangement.ofScore p s = .ok a) (hbs : a.fileBytes = .ok bs) :
    ∃ n, NamesTempo p bs n := by
  obtain ⟨n, hn, hnonneg, -⟩ := p.microseconds_ok hlow hhigh
  refine ⟨n, hn, firstTrack?_arrangement hn ha hbs, ?_, fun x k ↦ p.seconds_of_ticks hlow hhigh hp⟩
  rw [← p.microseconds_lt_iff hlow hhigh hn]
  omega

end

theorem namesTempo_fileBytes_quarter : (1 : Float) ≤ Playback.tempo {} ∧
    Playback.tempo {} ≤ 1000 ∧ Playback.check {} = .ok {} ∧ ∃ s a bs n,
      (Score.ofText {} quarter).1 = .ok s ∧ Arrangement.ofScore {} s = .ok a ∧
      a.fileBytes = .ok bs ∧ NamesTempo {} bs n ∧ n % 2 ^ 24 = n := by
  have hlow : (1 : Float) ≤ Playback.tempo {} := by decide
  have hhigh : Playback.tempo {} ≤ 1000 := by decide
  obtain ⟨s, hs, harranged⟩ := exists_ok_of_any (x := (Score.ofText {} quarter).1) (f := fun s ↦
    (Arrangement.ofScore {} s).toOption.any fun a ↦ a.events = [[⟨0, .tempo 500000⟩], [],
      [⟨0, .trackName (chunkName "p")⟩, ⟨0, .noteOn 0 60 80⟩, ⟨960, .noteOff 0 60 80⟩]])
    (by decide +kernel)
  obtain ⟨a, ha, hevents⟩ := exists_ok_of_any harranged
  have hevents := of_decide_eq_true hevents
  have hsorted : a.events.map Event.sort = a.events := by
    rw [hevents]
    cbv
  obtain ⟨bs, hbs⟩ : ∃ bs, a.fileBytes = .ok bs := by
    rw [Arrangement.fileBytes, fileBytes_eq, hsorted, hevents]
    exact exists_ok (by decide +kernel)
  obtain ⟨n, hnames⟩ := namesTempo_fileBytes hlow hhigh Playback.check_default ha hbs
  exact ⟨hlow, hhigh, Playback.check_default, s, a, bs, n, hs, ha, hbs, hnames,
    hnames.whole.mpr (by decide +kernel)⟩

/-- A quarter note that lasts a minute: the file says that it lasts less than ten seconds. -/
theorem misnamed_largo : ∃ s a bs, Playback.check { tempo := 1 } = .ok { tempo := 1 } ∧
    (Score.ofText {} quarter).1 = .ok s ∧ Arrangement.ofScore { tempo := 1 } s = .ok a ∧
    a.fileBytes = .ok bs ∧ Playback.microseconds { tempo := 1 } = .ok 60000000 ∧
    firstTrack? bs = some [⟨0, .tempo 9668352⟩] := by
  have hn : Playback.microseconds { tempo := 1 } = .ok 60000000 := by
    obtain ⟨n, hn, hshown⟩ := exists_ok_of_any (x := Playback.microseconds { tempo := 1 })
      (f := (· = 60000000)) (by decide +kernel)
    rw [hn, of_decide_eq_true hshown]
  obtain ⟨s, hs, harranged⟩ := exists_ok_of_any (x := (Score.ofText {} quarter).1) (f := fun s ↦
    (Arrangement.ofScore { tempo := 1 } s).toOption.any fun a ↦
      a.events = [[⟨0, .tempo 60000000⟩], [],
        [⟨0, .trackName (chunkName "p")⟩, ⟨0, .noteOn 0 60 80⟩, ⟨8, .noteOff 0 60 80⟩]])
    (by decide +kernel)
  obtain ⟨a, ha, hevents⟩ := exists_ok_of_any harranged
  have hevents := of_decide_eq_true hevents
  have hsorted : a.events.map Event.sort = a.events := by
    rw [hevents]
    cbv
  obtain ⟨bs, hbs⟩ : ∃ bs, a.fileBytes = .ok bs := by
    rw [Arrangement.fileBytes, fileBytes_eq, hsorted, hevents]
    exact exists_ok (by decide +kernel)
  refine ⟨s, a, bs, ?_, hs, ha, hbs, hn, firstTrack?_arrangement hn ha hbs⟩
  rw [Playback.check, if_neg (by decide), if_pos (by decide)]

end TextScore.Midi
