/-!
# UTF-8

Score files are read as UTF-8, and what is wrong with one is said to the octet: where the decoding
stopped and why.  The reasons are that an octet starts no character, that an octet cannot go on with
the character under way, or that the bytes end inside a character.

* `Utf8.readChar` — one character off the front.
* `Utf8.decode` — all characters, or the first error.
* `Utf8.decodeLossy` — all characters, with a replacement character for every error, as names of
  files are shown.
* `Utf8.encode` — the bytes of a text.
* `Utf8.unifyLineEnds` — a text with line feeds for all ends of lines.

Which octets may come second depends on the first, and `Utf8.lead?` says which.  In that way
overlong forms, surrogates and code points beyond U+10FFFF never get as far as a code point: the
first octet is refused at once, or the second one is refused behind it.
-/

namespace TextScore.Text.Utf8

/-- Why bytes are no UTF-8. -/
inductive Reason
  /-- The octet starts no character. -/
  | invalidStart
  /-- The next octet cannot go on with the character. -/
  | invalidContinuation
  /-- The character is not finished. -/
  | unexpectedEnd
  deriving DecidableEq, Repr

/-- The reason in words. -/
def Reason.text : Reason → String
  | invalidStart => "invalid start byte"
  | invalidContinuation => "invalid continuation byte"
  | unexpectedEnd => "unexpected end of data"

/-- What the first octet of a character says: its bits of the code point, how many octets follow,
and the range of the next one. -/
def lead? (b : Nat) : Option (Nat × Nat × Nat × Nat) :=
  if b < 0x80 then some (b, 0, 0x80, 0xBF)
  else if b < 0xC2 then none
  else if b < 0xE0 then some (b - 0xC0, 1, 0x80, 0xBF)
  else if b = 0xE0 then some (0, 2, 0xA0, 0xBF)
  else if b = 0xED then some (0xD, 2, 0x80, 0x9F)
  else if b < 0xF0 then some (b - 0xE0, 2, 0x80, 0xBF)
  else if b = 0xF0 then some (0, 3, 0x90, 0xBF)
  else if b < 0xF4 then some (b - 0xF0, 3, 0x80, 0xBF)
  else if b = 0xF4 then some (4, 3, 0x80, 0x8F)
  else none

/-- The octets that are still owed: the finished code point and the rest, or the reason and how many
octets were read before. -/
def readTails (value used : Nat) : Nat → Nat → Nat → List UInt8 →
    Except (Reason × Nat) (Nat × List UInt8)
  | 0, _, _, bs => .ok (value, bs)
  | _ + 1, _, _, [] => .error (.unexpectedEnd, used)
  | owed + 1, low, high, b :: bs =>
    if low ≤ b.toNat ∧ b.toNat ≤ high then
      readTails (value * 64 + b.toNat % 64) (used + 1) owed 0x80 0xBF bs
    else .error (.invalidContinuation, used)

/-- One character off the front of octets that start with `b`, or the reason why there is none and
how many octets the error takes. -/
def readChar (b : UInt8) (bs : List UInt8) : Except (Reason × Nat) (Char × List UInt8) :=
  match lead? b.toNat with
  | none => .error (.invalidStart, 1)
  | some (value, owed, low, high) =>
    (readTails value 1 owed low high bs).map fun p ↦ (Char.ofNat p.1, p.2)

/-- Bytes that are no UTF-8. -/
structure DecodeError where
  /-- What is wrong. -/
  reason : Reason
  /-- The first octet of the error. -/
  octet : UInt8
  /-- Its position. -/
  position : Nat
  /-- How many octets the error takes. -/
  count : Nat
  deriving DecidableEq, Repr

theorem length_readTails {value used owed low high : Nat} {bs r : List UInt8} {n : Nat}
    (h : readTails value used owed low high bs = .ok (n, r)) : r.length + owed = bs.length := by
  fun_induction readTails value used owed low high bs with
  | case1 => cases h; rfl
  | case2 => simp at h
  | case3 value used owed low high b bs _ ih => simp [← ih h]; omega
  | case4 => simp at h

theorem length_readChar {b : UInt8} {bs r : List UInt8} {c : Char}
    (h : readChar b bs = .ok (c, r)) : r.length ≤ bs.length := by
  unfold readChar at h
  split at h
  case h_1 => simp at h
  case h_2 value owed low high _ =>
    cases ht : readTails value 1 owed low high bs with
    | error e => simp [ht, Except.map] at h
    | ok p =>
      obtain ⟨n, s⟩ := p
      simp [ht, Except.map] at h
      have := length_readTails ht
      rw [← h.2]
      omega

/-- The characters of the octets from `position` on, behind the reversed characters `acc`. -/
def decodeOnto (acc : List Char) (position : Nat) : List UInt8 → Except DecodeError (List Char)
  | [] => .ok acc.reverse
  | b :: bs =>
    match h : readChar b bs with
    | .ok (c, r) =>
      have := length_readChar h
      decodeOnto (c :: acc) (position + c.utf8Size) r
    | .error (reason, count) => .error ⟨reason, b, position, count⟩
termination_by bs => bs.length

/-- The characters of a text, or the first error. -/
def decode (bs : List UInt8) : Except DecodeError (List Char) := decodeOnto [] 0 bs

/-- The characters of the octets, behind the reversed characters `acc`, with a replacement
character for every error. -/
def decodeLossyOnto (acc : List Char) : List UInt8 → List Char
  | [] => acc.reverse
  | b :: bs =>
    match h : readChar b bs with
    | .ok (c, r) =>
      have := length_readChar h
      decodeLossyOnto (c :: acc) r
    | .error (_, count) => decodeLossyOnto ('\uFFFD' :: acc) (bs.drop (count - 1))
termination_by bs => bs.length
decreasing_by all_goals simp; try omega

/-- The characters of a text, with a replacement character for every error. -/
def decodeLossy (bs : List UInt8) : List Char := decodeLossyOnto [] bs

/-- The octets of a text. -/
def encode (s : List Char) : List UInt8 := s.flatMap String.utf8EncodeChar

namespace DecodeError

/-- The error in words. -/
def message (e : DecodeError) : String :=
  let hex := String.ofList (Nat.toDigits 16 e.octet.toNat)
  let first := toString e.position
  let last := toString (e.position + e.count - 1)
  "'utf-8' codec can't decode " ++
    (if e.count = 1 then
      "byte 0x" ++ hex ++ " in position " ++ first
    else "bytes in position " ++ first ++ "-" ++ last) ++ ": " ++ e.reason.text

end DecodeError

/-- The text with its line ends unified, behind the reversed text `acc`. -/
def unifyLineEndsOnto (acc : List Char) : List Char → List Char
  | [] => acc.reverse
  | '\r' :: '\n' :: s => unifyLineEndsOnto ('\n' :: acc) s
  | '\r' :: s => unifyLineEndsOnto ('\n' :: acc) s
  | c :: s => unifyLineEndsOnto (c :: acc) s

/-- Carriage returns, alone or before a line feed, become line feeds. -/
def unifyLineEnds (s : List Char) : List Char := unifyLineEndsOnto [] s

end TextScore.Text.Utf8
