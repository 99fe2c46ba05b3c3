import TextScore.Midi.File

/-!
# Reading MIDI files

A reader of standard MIDI files that knows nothing of how they are written.  It takes a file to
pieces from the front: the header, as many track chunks as the header says, and in a chunk of the
length that it names one event behind the other, up to the end of the track.  Nothing may be left
over, in a chunk or in the file.

Times and the lengths of texts are quantities: groups of seven bits, as many as there are.  The
standard allows four of them, so that a quantity is below `2 ^ 28`.  A writer that does not know of
that bound makes files that only a more generous reader can read.  Both readers are the same but for
the bound, which is therefore an argument of everything that reads quantities: `some 4` for the
standard, `none` for a reader that takes any number of groups.

The two widths are checked against each other, and that is where a mistake of a writer would show.
A chunk says how many bytes it has, and its events have to fill these bytes exactly; the header says
how many chunks there are, and they have to fill the file.  The end of a track is an event too, so
that a track whose length is too small has no end, and one whose length is too large has something
behind it.

## What is here

* `readQuantity?` — a number in groups of seven bits.
* `Item.read?` — a message, or the end of the track.
* `readEvents?` — the events of a track, with their ticks counted from the start.
* `StandardFile.readWith?` — a file whose quantities have at most so many bytes.
* `StandardFile.read?` — a file by the standard.

Other messages than those that a score needs are not read, and a file that holds one is none to this
reader.  Neither is one with running status, in which a status byte that repeats the last one is
left out.
-/

set_option autoImplicit false

namespace TextScore.Midi

/-! ## Numbers

A field has a fixed number of bytes, the highest one first.  In a quantity every byte but the last
has its highest bit set. -/

/-- The first bytes, if there are so many, and the rest. -/
def readBytes? (count : Nat) (bs : List UInt8) : Option (List UInt8 × List UInt8) :=
  if count ≤ bs.length then some (bs.take count, bs.drop count) else none

/-- What follows the given bytes. -/
def dropBytes? (expected bs : List UInt8) : Option (List UInt8) :=
  if expected.isPrefixOf bs then some (bs.drop expected.length) else none

/-- The number that some bytes are, the highest one first. -/
def ofBigEndian (bs : List UInt8) : Nat := bs.foldl (fun n b ↦ n * 256 + b.toNat) 0

/-- A number in a field of fixed width. -/
def readField? (width : Nat) (bs : List UInt8) : Option (Nat × List UInt8) :=
  (readBytes? width bs).map fun p ↦ (ofBigEndian p.1, p.2)

/-- A quantity with `n` in front of it: seven bits in each byte, up to the first byte below 128. -/
def readGroups? (n : Nat) : List UInt8 → Option (Nat × List UInt8)
  | [] => none
  | b :: bs =>
    if b.toNat < 128 then some (n * 128 + b.toNat, bs)
    else readGroups? (n * 128 + (b.toNat - 128)) bs

/-- A quantity may have so many bytes, if there is a bound at all. -/
def admits (most? : Option Nat) (count : Nat) : Bool := most?.all fun most ↦ decide (count ≤ most)

/-- A quantity that is not too long. -/
def readQuantity? (most? : Option Nat) (bs : List UInt8) : Option (Nat × List UInt8) :=
  (readGroups? 0 bs).filter fun p ↦ admits most? (bs.length - p.2.length)

/-! ## Events

A meta event says how long its data are, a channel event has two bytes of them. -/

/-- What is read in a track: a message, or the end. -/
inductive Item
  /-- A message. -/
  | message (m : Message)
  /-- The end of the track. -/
  | endOfTrack
  deriving DecidableEq, Repr

/-- What a meta event of a kind says. -/
def Item.ofMeta? (kind : UInt8) (data : List UInt8) : Option Item :=
  if kind = 0x01 then some (.message (.text data))
  else if kind = 0x03 then some (.message (.trackName data))
  else if kind = 0x51 ∧ data.length = 3 then some (.message (.tempo (ofBigEndian data)))
  else if kind = 0x2F ∧ data = [] then some .endOfTrack
  else none

/-- What a channel event with two data bytes says: four bits of the first byte are its kind, four
are the channel, and a data byte has seven bits. -/
def Item.ofChannel? (status : Nat) (pitch velocity : Nat) : Option Item :=
  if pitch < 128 ∧ velocity < 128 then
    if status / 16 = 0x9 then some (.message (.noteOn (status % 16) pitch velocity))
    else if status / 16 = 0x8 then some (.message (.noteOff (status % 16) pitch velocity))
    else none
  else none

/-- An event without its time. -/
def Item.read? (most? : Option Nat) : List UInt8 → Option (Item × List UInt8)
  | 0xFF :: kind :: bs => do
    let (length, bs) ← readQuantity? most? bs
    let (data, bs) ← readBytes? length bs
    return (← ofMeta? kind data, bs)
  | status :: pitch :: velocity :: bs =>
    (ofChannel? status.toNat pitch.toNat velocity.toNat).map fun i ↦ (i, bs)
  | _ => none

/-- An event behind the time that has passed since the one before. -/
def readTimed? (most? : Option Nat) (bs : List UInt8) :
    Option ((Nat × Item) × List UInt8) := do
  let (gap, bs) ← readQuantity? most? bs
  let (item, bs) ← Item.read? most? bs
  return ((gap, item), bs)

theorem readBytes?_length {count : Nat} {bs data r : List UInt8}
    (h : readBytes? count bs = some (data, r)) : r.length ≤ bs.length := by
  rw [readBytes?] at h
  split at h
  case isTrue =>
    cases h
    simp
  case isFalse => cases h

theorem readGroups?_length {n m : Nat} {bs r : List UInt8} (h : readGroups? n bs = some (m, r)) :
    r.length < bs.length := by
  induction bs generalizing n with
  | nil => cases h
  | cons b bs ih =>
    rw [readGroups?] at h
    split at h
    case isTrue =>
      cases h
      simp
    case isFalse =>
      have := ih h
      rw [List.length_cons]
      omega

theorem readQuantity?_length {most? : Option Nat} {m : Nat} {bs r : List UInt8}
    (h : readQuantity? most? bs = some (m, r)) : r.length < bs.length :=
  readGroups?_length (Option.filter_eq_some_iff.mp h).1

theorem Item.read?_length {most? : Option Nat} {bs r : List UInt8} {i : Item}
    (h : read? most? bs = some (i, r)) : r.length < bs.length := by
  rw [read?.eq_def] at h
  split at h
  case h_1 kind bs =>
    obtain ⟨⟨length, bs₁⟩, h₁, h⟩ := Option.bind_eq_some_iff.mp h
    obtain ⟨⟨data, bs₂⟩, h₂, h⟩ := Option.bind_eq_some_iff.mp h
    obtain ⟨i', -, h⟩ := Option.bind_eq_some_iff.mp h
    cases h
    have e₁ := readQuantity?_length h₁
    have e₂ := readBytes?_length h₂
    simp only [List.length_cons]
    omega
  case h_2 =>
    obtain ⟨i', -, h⟩ := Option.map_eq_some_iff.mp h
    cases h
    simp only [List.length_cons]
    omega
  case h_3 => cases h

theorem readTimed?_length {most? : Option Nat} {bs r : List UInt8} {x : Nat × Item}
    (h : readTimed? most? bs = some (x, r)) : r.length < bs.length := by
  obtain ⟨⟨gap, bs₁⟩, h₁, h⟩ := Option.bind_eq_some_iff.mp h
  obtain ⟨⟨item, bs₂⟩, h₂, h⟩ := Option.bind_eq_some_iff.mp h
  cases h
  have e₁ := readQuantity?_length h₁
  have e₂ := Item.read?_length h₂
  omega

/-- The events of a track behind a tick.  The end of the track is read once, and nothing follows
it. -/
def readEvents? (most? : Option Nat) (tick : Int) (bs : List UInt8) : Option (List Event) :=
  match _h : readTimed? most? bs with
  | some ((gap, .message m), r) =>
    (readEvents? most? (tick + gap) r).map fun es ↦ ⟨tick + gap, m⟩ :: es
  | some ((_, .endOfTrack), r) => if r.isEmpty then some [] else none
  | none => none
termination_by bs.length
decreasing_by exact readTimed?_length _h

/-! ## Files

A chunk has a name of four letters and a length of four bytes. -/

/-- A track chunk. -/
def readChunk? (most? : Option Nat) (bs : List UInt8) :
    Option (List Event × List UInt8) := do
  let bs ← dropBytes? (chunkName "MTrk") bs
  let (length, bs) ← readField? 4 bs
  let (body, bs) ← readBytes? length bs
  return (← readEvents? most? 0 body, bs)

/-- So many track chunks, and nothing behind them. -/
def readChunks? (most? : Option Nat) : Nat → List UInt8 → Option (List (List Event))
  | 0, bs => if bs.isEmpty then some [] else none
  | count + 1, bs => do
    let (es, bs) ← readChunk? most? bs
    return es :: (← readChunks? most? count bs)

/-- A standard MIDI file. -/
structure StandardFile where
  /-- The format: whether the tracks are to be played at once. -/
  format : Nat
  /-- The ticks of a quarter note. -/
  division : Nat
  /-- The events of the tracks. -/
  tracks : List (List Event)
  deriving DecidableEq, Repr

namespace StandardFile

/-- A header of six bytes (the format, the number of tracks and the division), and the tracks. -/
def readWith? (most? : Option Nat) (bs : List UInt8) : Option StandardFile := do
  let bs ← dropBytes? (chunkName "MThd") bs
  let bs ← dropBytes? [0, 0, 0, 6] bs
  let (format, bs) ← readField? 2 bs
  let (count, bs) ← readField? 2 bs
  let (division, bs) ← readField? 2 bs
  return ⟨format, division, ← readChunks? most? count bs⟩

/-- A file by the standard: no quantity has more than four bytes. -/
def read? : List UInt8 → Option StandardFile := readWith? (some 4)

end StandardFile

end TextScore.Midi
