import TextScore.Fault

/-!
# Bytes of a MIDI file

A standard MIDI file of format 1 is a header and a chunk for each track.  A chunk holds events in
the order of their ticks, each behind the time that has passed since the one before.

* `bigEndian`, `field` — a number in a field of fixed width.
* `quantity` — a number in as many bytes as it needs, seven bits each, with the top bit set in all
  but the last.
* `latin1` — a text, one byte for each character.
* `Midi.Event` — a message at a tick.
* `Midi.Event.sort` — the order in a chunk.
* `Midi.fileBytes` — the bytes of a file.

What is written is what was given, and whether it is a MIDI file is another matter.  A quantity may
get more bytes than the format allows, a negative time difference gets none, and of a tempo only the
low three bytes are written.  When these do no harm is a matter for
`TextScore.Proofs.Midi.RoundTrip` and `TextScore.Proofs.Midi.Tempo`, which read the bytes back.
-/

namespace TextScore.Midi

/-! ## Bytes of a MIDI file -/

/-- The low bytes of a number, the highest first. -/
def bigEndian : Nat → Nat → List UInt8
  | 0, _ => []
  | width + 1, n => bigEndian width (n / 256) ++ [UInt8.ofNat n]

/-- A number in a field of fixed width, if it fits. -/
def field (width : Nat) (n : Int) : Except Fault (List UInt8) :=
  if 0 ≤ n ∧ n < Nat.pow 256 width then .ok (bigEndian width n.toNat) else .error .fieldTooSmall

/-- The bytes of a quantity before its last one. -/
def leadingBytes (n : Nat) : List UInt8 :=
  if n = 0 then [] else leadingBytes (n / 128) ++ [UInt8.ofNat (n % 128 + 128)]
termination_by n
decreasing_by omega

/-- A number in groups of seven bits, the highest first. -/
def quantity (n : Nat) : List UInt8 := leadingBytes (n / 128) ++ [UInt8.ofNat (n % 128)]

/-- A time difference.  A negative one has no bytes. -/
def delta (n : Int) : List UInt8 := if n < 0 then [] else quantity n.toNat

/-- A text, one byte for each character; characters above U+00FF have none. -/
def latin1 (s : String) : Except Fault (List UInt8) :=
  if s.toList.all fun c ↦ c.toNat < 256 then .ok (s.toList.map fun c ↦ UInt8.ofNat c.toNat)
  else .error (.unencodableText s)

theorem length_bigEndian (width n : Nat) : (bigEndian width n).length = width := by
  induction width generalizing n with
  | zero => rfl
  | succ width ih => simp [bigEndian, ih]

/-! ## MIDI files

At one tick, names come before texts, texts before note ends, and note ends before note starts.  So
a note that ends where the next one of its pitch starts does not silence it, and a note without
length ends before it starts. -/

/-- What an event says. -/
inductive Message
  /-- The tempo, in microseconds for a quarter note. -/
  | tempo (microseconds : Int)
  /-- A text. -/
  | text (bytes : List UInt8)
  /-- The name of the track. -/
  | trackName (bytes : List UInt8)
  /-- A note starts. -/
  | noteOn (channel pitch velocity : Nat)
  /-- A note ends. -/
  | noteOff (channel pitch velocity : Nat)
  deriving DecidableEq, Repr

namespace Message

/-- The place of a message among those at the same tick. -/
def rank : Message → Nat
  | trackName _ => 0
  | text _ => 1
  | noteOff .. => 2
  | noteOn .. => 3
  | tempo _ => 3

/-- The bytes of a message.  Of the tempo only the low three bytes are written. -/
def bytes : Message → Except Fault (List UInt8)
  | tempo n => do return [0xFF, 0x51, 3] ++ (← field 4 n).drop 1
  | text bs => .ok ([0xFF, 1] ++ quantity bs.length ++ bs)
  | trackName bs => .ok ([0xFF, 3] ++ quantity bs.length ++ bs)
  | noteOn channel pitch velocity =>
    .ok [UInt8.ofNat (0x90 + channel), UInt8.ofNat pitch, UInt8.ofNat velocity]
  | noteOff channel pitch velocity =>
    .ok [UInt8.ofNat (0x80 + channel), UInt8.ofNat pitch, UInt8.ofNat velocity]

end Message

/-- A message at a tick. -/
structure Event where
  /-- The tick. -/
  tick : Int
  /-- The message. -/
  message : Message
  deriving DecidableEq, Repr

namespace Event

/-- The order of events in a chunk: by tick, then by rank. -/
def notAfter (a b : Event) : Bool :=
  a.tick < b.tick || (a.tick == b.tick && a.message.rank ≤ b.message.rank)

/-- The events in the order of a chunk; events of equal tick and rank keep their order. -/
def sort (es : List Event) : List Event := es.mergeSort notAfter

/-- The time from each event to the one before, or to tick zero. -/
def gaps (es : List Event) : List Int :=
  List.zipWith (fun e before ↦ e.tick - before) es (0 :: es.map (·.tick))

/-- The bytes of an event behind a time difference. -/
def timedBytes (e : Event × Int) : Except Fault (List UInt8) := do
  return delta e.2 ++ (← e.1.message.bytes)

/-- The bytes of events, each behind the time that has passed since the one before. -/
def bytes (es : List Event) : Except Fault (List UInt8) := do
  return (← (es.zip (gaps es)).mapM timedBytes).flatten

end Event

/-- The event at the end of every track. -/
def endOfTrack : List UInt8 := [0x00, 0xFF, 0x2F, 0x00]

/-- The letters of a chunk's name. -/
def chunkName (s : String) : List UInt8 := s.toList.map fun c ↦ UInt8.ofNat c.toNat

/-- A track chunk with events given in any order. -/
def trackChunk (es : List Event) : Except Fault (List UInt8) := do
  let body := (← Event.bytes (Event.sort es)) ++ endOfTrack
  return chunkName "MTrk" ++ (← field 4 body.length) ++ body

/-- The ticks of a quarter note. -/
def division : Nat := 960

/-- The header of a file of format 1. -/
def headerChunk (tracks : Nat) : Except Fault (List UInt8) := do
  return chunkName "MThd" ++ (← field 4 6) ++ (← field 2 1) ++ (← field 2 tracks) ++
    (← field 2 division)

/-- A file with the given tracks. -/
def fileBytes (tracks : List (List Event)) : Except Fault (List UInt8) := do
  let header ← headerChunk tracks.length
  let chunks ← tracks.mapM trackChunk
  return header ++ chunks.flatten

end TextScore.Midi
