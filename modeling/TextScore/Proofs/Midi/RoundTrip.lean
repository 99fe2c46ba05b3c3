import Mathlib
import TextScore.Proofs.Midi.Reader
import TextScore.Proofs.Noted

/-!
# Reading what was written

The reader of MIDI files gives back what was written, with anything behind it, unless a quantity is
longer than the reader allows; then it gives back nothing.  Both are shown at once, level by level:
what is read behind a quantity is there if the quantity is admitted, so that a file is read if all
its quantities are.

At every level the statement has the same form: the bytes that were written, with any other bytes
behind them, are read as what they were written for, and the other bytes are left, if some condition
on quantities holds; otherwise nothing is read.  The conditions are Boolean functions and the
statements are equations with an `if` in them, so that each level is obtained by rewriting with the
one below.

What is read is not always what was meant.  Of a tempo only three bytes are in the file
(`Message.stored`).  Pitches, velocities and channels would be cut off in the same way; here it is a
hypothesis that they fit, and it is shown of an arrangement where it is used.  The events of a track
are written in order of their ticks, and with equal ticks ends come in front of starts, so they are
read in this order and not in that in which they were given.

## What is here

* `readField?_append`, `readQuantity?_append` — numbers.
* `length_quantity_le_iff` — how many bytes a quantity has.
* `Item.read?_append` — a message whose values have room in its bytes.
* `readEvents?_flatten` — the events of a track, if their ticks do not go back.
* `StandardFile.readWith?_fileBytes` — a file, with the events of every track in order.
-/

set_option autoImplicit false

namespace TextScore.Midi

/-! ## Numbers

A quantity is written from its last group to its first; `leadingBytes` are those in front of the
last one. -/

theorem readBytes?_append (data r : List UInt8) :
    readBytes? data.length (data ++ r) = some (data, r) := by
  simp [readBytes?]

theorem dropBytes?_append (expected r : List UInt8) :
    dropBytes? expected (expected ++ r) = some r := by
  simp [dropBytes?]

theorem ofBigEndian_concat (bs : List UInt8) (b : UInt8) :
    ofBigEndian (bs ++ [b]) = ofBigEndian bs * 256 + b.toNat := by
  simp [ofBigEndian]

/-- The low bytes of a number are the number without its high bytes. -/
theorem ofBigEndian_bigEndian (width n : Nat) :
    ofBigEndian (bigEndian width n) = n % 256 ^ width := by
  induction width generalizing n with
  | zero => simp [bigEndian, ofBigEndian, Nat.mod_one]
  | succ width ih =>
    have hbyte : (UInt8.ofNat n).toNat = n % 256 := UInt8.toNat_ofNat'
    rw [bigEndian, ofBigEndian_concat, ih, hbyte, Nat.pow_succ', Nat.mod_mul]
    omega

theorem drop_bigEndian (width n : Nat) : (bigEndian (width + 1) n).drop 1 = bigEndian width n := by
  induction width generalizing n with
  | zero => rfl
  | succ width ih =>
    rw [bigEndian, List.drop_append_of_le_length (by simp [length_bigEndian]), ih, bigEndian]

theorem field_ok {width : Nat} {n : Int} {bs : List UInt8} (h : field width n = .ok bs) :
    0 ≤ n ∧ n < (256 ^ width : Nat) ∧ bs = bigEndian width n.toNat := by
  rw [field] at h
  split at h
  case isTrue hn => exact ⟨hn.1, hn.2, (Except.ok.inj h).symm⟩
  case isFalse => cases h

/-- A number is read back from its field. -/
theorem readField?_append {width n : Nat} {bs : List UInt8} (h : field width n = .ok bs)
    (r : List UInt8) : readField? width (bs ++ r) = some (n, r) := by
  obtain ⟨-, hn, rfl⟩ := field_ok h
  have hread := readBytes?_append (bigEndian width n) r
  rw [length_bigEndian] at hread
  rw [readField?, Int.toNat_natCast, hread, Option.map_some, ofBigEndian_bigEndian,
    Nat.mod_eq_of_lt (Int.ofNat_lt.mp hn)]

/-- Behind its leading bytes a quantity is as good as read. -/
theorem readGroups?_leadingBytes (n : Nat) (r : List UInt8) :
    readGroups? 0 (leadingBytes n ++ r) = readGroups? n r := by
  induction n using leadingBytes.induct generalizing r with
  | case1 => rw [leadingBytes, if_pos rfl, List.nil_append]
  | case2 n hn ih =>
    have hbyte : (UInt8.ofNat (n % 128 + 128)).toNat = n % 128 + 128 :=
      UInt8.toNat_ofNat_of_lt (by omega : n % 128 + 128 < 256)
    have hread : n / 128 * 128 + (n % 128 + 128 - 128) = n := by omega
    rw [leadingBytes, if_neg hn, List.append_assoc, ih, List.singleton_append, readGroups?, hbyte,
      if_neg (by omega), hread]

theorem readGroups?_append (n : Nat) (r : List UInt8) :
    readGroups? 0 (quantity n ++ r) = some (n, r) := by
  have hbyte : (UInt8.ofNat (n % 128)).toNat = n % 128 :=
    UInt8.toNat_ofNat_of_lt (by omega : n % 128 < 256)
  rw [quantity, List.append_assoc, readGroups?_leadingBytes, List.singleton_append, readGroups?,
    hbyte, if_pos (by omega), Nat.div_add_mod']

/-- A quantity is read back, if it is not too long. -/
theorem readQuantity?_append (most? : Option Nat) (n : Nat) (r : List UInt8) :
    readQuantity? most? (quantity n ++ r) =
      if admits most? (quantity n).length then some (n, r) else none := by
  rw [readQuantity?, readGroups?_append, Option.filter_some, List.length_append,
    Nat.add_sub_cancel_right]

theorem quantity_of_lt {n : Nat} (h : n < 128) : quantity n = [UInt8.ofNat n] := by
  rw [quantity, Nat.div_eq_of_lt h, leadingBytes, if_pos rfl, List.nil_append, Nat.mod_eq_of_lt h]

theorem length_leadingBytes_le_iff {k n : Nat} : (leadingBytes n).length ≤ k ↔ n < 128 ^ k := by
  induction k generalizing n with
  | zero =>
    rw [leadingBytes]
    split <;> simp_all
  | succ k ih =>
    rw [leadingBytes]
    split
    case isTrue hn =>
      rw [hn]
      exact iff_of_true (Nat.zero_le _) (by positivity)
    case isFalse hn =>
      rw [List.length_append, List.length_singleton, Nat.add_le_add_iff_right, ih, pow_succ,
        Nat.div_lt_iff_lt_mul (by decide)]

/-- A quantity has one byte for every seven bits. -/
theorem length_quantity_le_iff {k n : Nat} : (quantity n).length ≤ k + 1 ↔ n < 128 ^ (k + 1) := by
  rw [quantity, List.length_append, List.length_singleton, Nat.add_le_add_iff_right,
    length_leadingBytes_le_iff, pow_succ, Nat.div_lt_iff_lt_mul (by decide)]

/-! ## Messages

A message is written behind a time difference, and has a quantity of its own if it has a text. -/

/-- The values of a message have room in its bytes. -/
def Message.Fits : Message → Prop
  | noteOn channel pitch velocity | noteOff channel pitch velocity =>
    channel < 16 ∧ pitch < 128 ∧ velocity < 128
  | _ => True

/-- A message as a file holds it: of a tempo the low three bytes. -/
def Message.stored : Message → Message
  | tempo n => tempo (n % 2 ^ 24)
  | m => m

/-- The text of a message that has one. -/
def Message.data : Message → List UInt8
  | text bs | trackName bs => bs
  | _ => []

/-- Quantities of one byte are allowed, which is what every reader needs. -/
structure Admits (most? : Option Nat) : Prop where
  /-- One byte is allowed. -/
  one : admits most? 1 = true

theorem Admits.standard : Admits (some 4) := ⟨rfl⟩

theorem Admits.any : Admits none := ⟨rfl⟩

theorem Admits.length_quantity {most? : Option Nat} (h : Admits most?) {n : Nat} (hn : n < 128) :
    admits most? (quantity n).length = true := by
  rw [quantity_of_lt hn]
  exact h.one

theorem Item.read?_meta {most? : Option Nat} {kind : UInt8} {data : List UInt8} {i : Item}
    (h : Item.ofMeta? kind data = some i) (r : List UInt8) :
    Item.read? most? (0xFF :: kind :: (quantity data.length ++ (data ++ r))) =
      if admits most? (quantity data.length).length then some (i, r) else none := by
  rw [Item.read?.eq_1, readQuantity?_append]
  split
  case isTrue => simp [readBytes?_append, h]
  case isFalse => rfl

theorem Item.read?_channel {most? : Option Nat} {status pitch velocity : Nat}
    (hstatus : status < 255) (hpitch : pitch < 128) (hvelocity : velocity < 128)
    (r : List UInt8) :
    Item.read? most? (UInt8.ofNat status :: UInt8.ofNat pitch :: UInt8.ofNat velocity :: r) =
      (Item.ofChannel? status pitch velocity).map fun i ↦ (i, r) := by
  have hbyte {n : Nat} (hn : n < 255) : (UInt8.ofNat n).toNat = n :=
    UInt8.toNat_ofNat_of_lt (by omega : n < 256)
  have hne : UInt8.ofNat status ≠ 0xFF := by
    intro heq
    have := congrArg UInt8.toNat heq
    rw [hbyte hstatus] at this
    exact Nat.ne_of_lt hstatus this
  rw [Item.read?.eq_2, hbyte hstatus, hbyte (by omega), hbyte (by omega)]
  exact hne

/-- Of a tempo the low three bytes are read back. -/
theorem Item.read?_tempo {most? : Option Nat} (hmost : Admits most?) {n : Int} (hn : 0 ≤ n)
    (r : List UInt8) : Item.read? most? (0xFF :: 0x51 :: 3 :: (bigEndian 3 n.toNat ++ r)) =
      some (.message (.tempo (n % 2 ^ 24)), r) := by
  have hmeta : Item.ofMeta? 0x51 (bigEndian 3 n.toNat) =
      some (.message (.tempo (n % 2 ^ 24))) := by
    rw [Item.ofMeta?, if_neg (by decide), if_neg (by decide),
      if_pos ⟨rfl, length_bigEndian 3 _⟩, ofBigEndian_bigEndian]
    congr 3
    omega
  have hread : Item.read? most? (0xFF :: 0x51 :: (quantity (bigEndian 3 n.toNat).length ++
      (bigEndian 3 n.toNat ++ r))) = _ := Item.read?_meta hmeta r
  rwa [length_bigEndian, if_pos (hmost.length_quantity (by decide)),
    quantity_of_lt (by omega)] at hread

/-- A start is read from its first byte on. -/
theorem Item.ofChannel?_noteOn {channel pitch velocity : Nat}
    (h : (Message.noteOn channel pitch velocity).Fits) :
    ofChannel? (0x90 + channel) pitch velocity =
      some (.message (.noteOn channel pitch velocity)) := by
  obtain ⟨hchannel, hpitch, hvelocity⟩ := h
  have hkind : (0x90 + channel) / 16 = 0x9 := by omega
  have hlow : (0x90 + channel) % 16 = channel := by omega
  simp [ofChannel?, hkind, hlow, hpitch, hvelocity]

/-- So is an end. -/
theorem Item.ofChannel?_noteOff {channel pitch velocity : Nat}
    (h : (Message.noteOff channel pitch velocity).Fits) :
    ofChannel? (0x80 + channel) pitch velocity =
      some (.message (.noteOff channel pitch velocity)) := by
  obtain ⟨hchannel, hpitch, hvelocity⟩ := h
  have hkind : (0x80 + channel) / 16 = 0x8 := by omega
  have hlow : (0x80 + channel) % 16 = channel := by omega
  simp [ofChannel?, hkind, hlow, hpitch, hvelocity]

/-- A message is read back as a file holds it, if its text is not too long. -/
theorem Item.read?_append {most? : Option Nat} (hmost : Admits most?) {m : Message}
    {bs : List UInt8} (h : m.bytes = .ok bs) (hfits : m.Fits) (r : List UInt8) :
    Item.read? most? (bs ++ r) =
      if admits most? (quantity m.data.length).length then some (.message m.stored, r)
      else none := by
  have hnone : admits most? (quantity ([] : List UInt8).length).length = true :=
    hmost.length_quantity (by decide)
  cases m with
  | tempo n =>
    obtain ⟨low, hlow, h⟩ := bind_eq_ok h
    obtain ⟨hn, -, rfl⟩ := field_ok hlow
    obtain rfl := Except.ok.inj h
    rw [drop_bigEndian]
    exact (Item.read?_tempo hmost hn r).trans (if_pos hnone).symm
  | text data | trackName data =>
    obtain rfl := Except.ok.inj h
    rw [List.append_assoc, List.append_assoc]
    exact Item.read?_meta rfl r
  | noteOn channel pitch velocity =>
    obtain rfl := Except.ok.inj h
    have hchannel : channel < 16 := hfits.1
    have hstatus : 0x90 + channel < 255 := by omega
    refine (Item.read?_channel hstatus hfits.2.1 hfits.2.2 r).trans ?_
    rw [Item.ofChannel?_noteOn hfits]
    exact (if_pos hnone).symm
  | noteOff channel pitch velocity =>
    obtain rfl := Except.ok.inj h
    have hchannel : channel < 16 := hfits.1
    have hstatus : 0x80 + channel < 255 := by omega
    refine (Item.read?_channel hstatus hfits.2.1 hfits.2.2 r).trans ?_
    rw [Item.ofChannel?_noteOff hfits]
    exact (if_pos hnone).symm

/-! ## Tracks

A track holds time differences instead of ticks.  They are not negative if the ticks do not go back,
and that is so of a sorted track that does not start before tick zero. -/

namespace Event

/-- The event has a place in a file. -/
structure Fits (e : Event) : Prop where
  /-- Its tick is not before the start. -/
  tick : 0 ≤ e.tick
  /-- The message has room in its bytes. -/
  message : e.message.Fits

/-- An event as a file holds it. -/
def stored (e : Event) : Event := ⟨e.tick, e.message.stored⟩

/-- The quantities of an event behind a time difference are not too long. -/
def isAdmitted (most? : Option Nat) (e : Event × Int) : Bool :=
  admits most? (quantity e.2.toNat).length &&
    admits most? (quantity e.1.message.data.length).length

/-- The time from each event to the one before, or to a tick. -/
def gapsFrom (tick : Int) (es : List Event) : List Int :=
  List.zipWith (fun e before ↦ e.tick - before) es (tick :: es.map Event.tick)

theorem gapsFrom_cons (tick : Int) (e : Event) (es : List Event) :
    gapsFrom tick (e :: es) = (e.tick - tick) :: gapsFrom e.tick es := rfl

theorem gaps_eq (es : List Event) : gaps es = gapsFrom 0 es := rfl

variable {a b c : Event}

theorem notAfter_iff : a.notAfter b = true ↔
    a.tick < b.tick ∨ a.tick = b.tick ∧ a.message.rank ≤ b.message.rank := by
  simp [notAfter]

theorem sort_perm (es : List Event) : (sort es).Perm es := List.mergeSort_perm es notAfter

theorem pairwise_sort (es : List Event) : (sort es).Pairwise fun a b ↦ a.notAfter b = true := by
  refine List.pairwise_mergeSort ?_ ?_ es
  · intro a b c
    simp only [notAfter_iff]
    omega
  · intro a b
    simp only [Bool.or_eq_true, notAfter_iff]
    omega

theorem pairwise_tick_sort (es : List Event) :
    (sort es).Pairwise fun a b ↦ a.tick ≤ b.tick := by
  refine (pairwise_sort es).imp fun {a b} hab ↦ ?_
  rw [notAfter_iff] at hab
  omega

end Event

section

variable {most? : Option Nat} (hmost : Admits most?)
include hmost

/-- A time difference and a message are read back. -/
theorem readTimed?_append {e : Event} {gap : Int} {bs : List UInt8} (hgap : 0 ≤ gap)
    (hfits : e.message.Fits) (h : Event.timedBytes (e, gap) = .ok bs) (r : List UInt8) :
    readTimed? most? (bs ++ r) = if Event.isAdmitted most? (e, gap)
      then some ((gap.toNat, .message e.message.stored), r) else none := by
  obtain ⟨message, hmessage, h⟩ := bind_eq_ok h
  obtain rfl := Except.ok.inj h
  have hdelta : delta gap = quantity gap.toNat := if_neg (by omega)
  rw [hdelta, List.append_assoc, readTimed?, readQuantity?_append, Event.isAdmitted]
  by_cases hquantity : admits most? (quantity gap.toNat).length = true
  · rw [if_pos hquantity, hquantity, Bool.true_and, Option.bind_eq_bind, Option.bind_some]
    dsimp only
    rw [Item.read?_append hmost hmessage hfits]
    split <;> rfl
  · rw [if_neg hquantity, Bool.eq_false_iff.mpr hquantity]
    rfl

theorem readTimed?_endOfTrack : readTimed? most? endOfTrack = some ((0, .endOfTrack), []) := by
  have hzero : quantity 0 = [0] := quantity_of_lt (by decide)
  have hread (r : List UInt8) : readQuantity? most? (0 :: r) = some (0, r) := by
    have h := readQuantity?_append most? 0 r
    rw [if_pos (hmost.length_quantity (by decide)), hzero] at h
    exact h
  rw [readTimed?, endOfTrack, hread, Option.bind_eq_bind, Option.bind_some]
  dsimp only
  rw [Item.read?.eq_1, hread]
  rfl

theorem readEvents?_endOfTrack (tick : Int) : readEvents? most? tick endOfTrack = some [] := by
  have hread := readTimed?_endOfTrack hmost
  rw [readEvents?]
  split
  case h_1 h => cases hread.symm.trans h
  case h_2 h =>
    cases hread.symm.trans h
    rfl
  case h_3 h => cases hread.symm.trans h

omit hmost in
theorem readEvents?_message {tick : Int} {bs r : List UInt8} {gap : Nat} {m : Message}
    (h : readTimed? most? bs = some ((gap, .message m), r)) :
    readEvents? most? tick bs =
      (readEvents? most? (tick + gap) r).map fun es ↦ ⟨tick + gap, m⟩ :: es := by
  rw [readEvents?]
  split
  case h_1 h' =>
    cases h.symm.trans h'
    rfl
  case h_2 h' => cases h.symm.trans h'
  case h_3 h' => cases h.symm.trans h'

omit hmost in
theorem readEvents?_of_none {tick : Int} {bs : List UInt8} (h : readTimed? most? bs = none) :
    readEvents? most? tick bs = none := by
  rw [readEvents?]
  split
  case h_1 h' => cases h.symm.trans h'
  case h_2 h' => cases h.symm.trans h'
  case h_3 => rfl

/-- Events are read back if their ticks do not go back. -/
theorem readEvents?_flatten {es : List Event} {tick : Int} {chunks : List (List UInt8)}
    (h : List.Forall₂ (fun e bs ↦ Event.timedBytes e = .ok bs) (es.zip (Event.gapsFrom tick es))
      chunks)
    (hfits : ∀ e ∈ es, e.message.Fits) (hfirst : ∀ e ∈ es, tick ≤ e.tick)
    (hsorted : es.Pairwise fun a b ↦ a.tick ≤ b.tick) :
    readEvents? most? tick (chunks.flatten ++ endOfTrack) =
      if (es.zip (Event.gapsFrom tick es)).all (Event.isAdmitted most?)
      then some (es.map Event.stored) else none := by
  induction es generalizing tick chunks with
  | nil =>
    cases h
    exact readEvents?_endOfTrack hmost tick
  | cons e es ih =>
    rw [Event.gapsFrom_cons, List.zip_cons_cons] at h ⊢
    cases h with
    | @cons _ bs _ chunks hbs hchunks =>
    rw [List.forall_mem_cons] at hfits hfirst
    rw [List.pairwise_cons] at hsorted
    have hread := readTimed?_append hmost (by omega) hfits.1 hbs (chunks.flatten ++ endOfTrack)
    have htick : tick + (e.tick - tick).toNat = e.tick := by omega
    rw [List.flatten_cons, List.append_assoc, List.all_cons]
    -- if the first event is not admitted nothing is read, whatever follows
    by_cases hhead : Event.isAdmitted most? (e, e.tick - tick) = true
    · rw [if_pos hhead] at hread
      rw [readEvents?_message hread, htick, ih hchunks hfits.2 hsorted.1 hsorted.2, hhead,
        Bool.true_and]
      split <;> rfl
    · rw [if_neg hhead] at hread
      rw [readEvents?_of_none hread, Bool.eq_false_iff.mpr hhead]
      rfl

end

/-! ## Files

The length of a chunk and the number of chunks are what the header says, since writing fails if they
do not fit in their fields. -/

/-- The quantities of a track are not too long. -/
def isAdmitted (most? : Option Nat) (es : List Event) : Bool :=
  ((Event.sort es).zip (Event.gaps (Event.sort es))).all (Event.isAdmitted most?)

section

variable {most? : Option Nat} (hmost : Admits most?)
include hmost

/-- A track is read back, with its events in order. -/
theorem readChunk?_append {es : List Event} {bs : List UInt8} (h : trackChunk es = .ok bs)
    (hfits : ∀ e ∈ es, e.Fits) (r : List UInt8) :
    readChunk? most? (bs ++ r) = if isAdmitted most? es
      then some ((Event.sort es).map Event.stored, r) else none := by
  obtain ⟨body, hbody, h⟩ := bind_eq_ok h
  obtain ⟨chunks, hchunks, hbody⟩ := bind_eq_ok hbody
  obtain rfl := Except.ok.inj hbody
  obtain ⟨length, hlength, h⟩ := bind_eq_ok h
  obtain rfl := Except.ok.inj h
  have hevents : readEvents? most? 0 (chunks.flatten ++ endOfTrack) =
      if isAdmitted most? es then some ((Event.sort es).map Event.stored) else none := by
    rw [isAdmitted, Event.gaps_eq]
    rw [Event.gaps_eq] at hchunks
    refine readEvents?_flatten hmost (mapM_ok hchunks) ?_ ?_ (Event.pairwise_tick_sort es)
    · exact fun e he ↦ (hfits e ((Event.sort_perm es).mem_iff.mp he)).message
    · exact fun e he ↦ (hfits e ((Event.sort_perm es).mem_iff.mp he)).tick
  have hread := readBytes?_append (chunks.flatten ++ endOfTrack) r
  rw [List.append_assoc] at hread
  simp only [readChunk?, List.append_assoc, dropBytes?_append, readField?_append hlength, hread,
    Option.bind_eq_bind, Option.bind_some, hevents]
  split <;> rfl

theorem readChunks?_flatten {tracks : List (List Event)} {chunks : List (List UInt8)}
    (h : List.Forall₂ (fun es bs ↦ trackChunk es = .ok bs) tracks chunks)
    (hfits : ∀ es ∈ tracks, ∀ e ∈ es, e.Fits) :
    readChunks? most? tracks.length chunks.flatten = if tracks.all (isAdmitted most?)
      then some (tracks.map fun es ↦ (Event.sort es).map Event.stored) else none := by
  induction h with
  | nil => rfl
  | @cons es bs tracks chunks hbs hchunks ih =>
    rw [List.forall_mem_cons] at hfits
    rw [List.length_cons, List.flatten_cons, readChunks?, readChunk?_append hmost hbs hfits.1,
      List.all_cons]
    cases isAdmitted most? es with
    | true =>
      rw [if_pos rfl, Option.bind_eq_bind, Option.bind_some, Bool.true_and]
      dsimp only
      rw [ih hfits.2]
      split <;> rfl
    | false => rfl

end

/-- A file is made of tracks in order. -/
theorem fileBytes_eq (tracks : List (List Event)) : fileBytes tracks = do
    let header ← headerChunk tracks.length
    let chunks ← (tracks.map Event.sort).mapM fun es ↦ do
      let body := (← Event.bytes es) ++ endOfTrack
      return chunkName "MTrk" ++ (← field 4 body.length) ++ body
    return header ++ chunks.flatten := by
  rw [List.mapM_map]
  rfl

/-- **A file is read back**, if none of its quantities is too long, and otherwise it is not read at
all.  What is read has the events of every track in order, as the file holds them. -/
theorem StandardFile.readWith?_fileBytes {most? : Option Nat} (hmost : Admits most?)
    {tracks : List (List Event)} {bs : List UInt8} (h : fileBytes tracks = .ok bs)
    (hfits : ∀ es ∈ tracks, ∀ e ∈ es, e.Fits) :
    readWith? most? bs = if tracks.all (isAdmitted most?)
      then some ⟨1, 960, tracks.map fun es ↦ (Event.sort es).map Event.stored⟩ else none := by
  obtain ⟨header, hheader, h⟩ := bind_eq_ok h
  obtain ⟨chunks, hchunks, h⟩ := bind_eq_ok h
  obtain rfl := Except.ok.inj h
  obtain ⟨size, hsize, hheader⟩ := bind_eq_ok hheader
  obtain ⟨format, hformat, hheader⟩ := bind_eq_ok hheader
  obtain ⟨count, hcount, hheader⟩ := bind_eq_ok hheader
  obtain ⟨division, hdivision, hheader⟩ := bind_eq_ok hheader
  obtain rfl := Except.ok.inj hheader
  have hsix : size = [0, 0, 0, 6] := (Except.ok.inj hsize).symm
  simp only [hsix, readWith?, List.append_assoc, dropBytes?_append, readField?_append hformat,
    readField?_append hcount, readField?_append hdivision, Option.bind_eq_bind, Option.bind_some,
    readChunks?_flatten hmost (mapM_ok hchunks) hfits]
  split <;> rfl

end TextScore.Midi
