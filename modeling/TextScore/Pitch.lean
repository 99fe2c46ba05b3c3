import TextScore.Number.Numeral
import TextScore.Text.Line

/-!
# Pitches

A pitch is a pitch class and an octave; together they are a number of semitones, through which every
transposition goes, so that octaves roll over in both directions.  Octaves are unbounded, negative
ones included, and only writing a name can fail: an octave may have too many digits.

* `Pitch.semitone`, `Pitch.ofSemitone` — the two views of a pitch.
* `Pitch.name` — the sharp-spelled name, such as `A#3`.
* `Pitch.Spelling.read?` — a letter, an accidental and an octave at the front of a text.
* `midiNumber` — the MIDI note number of a name.

Names are read in two ways.  What a score writes is a spelling, with flats, double accidentals and
quarter tones, and with the octave left out if one likes; what a note of a compiled score carries is
a sharp-spelled name, and that is what `midiNumber` takes.
-/

namespace TextScore

open Text Number

/-- A pitch class, counted in semitones from C, in an octave. -/
structure Pitch where
  /-- Semitones above C. -/
  pitchClass : Fin 12
  /-- The octave. -/
  octave : Int
  deriving DecidableEq, Repr

namespace Pitch

/-- The number of semitones above the C of octave zero. -/
def semitone (p : Pitch) : Int := p.octave * 12 + p.pitchClass.val

/-- The pitch a number of semitones above the C of octave zero. -/
def ofSemitone (n : Int) : Pitch := ⟨Fin.ofNat 12 (n % 12).toNat, n / 12⟩

/-- The first pitch of an octave, a C. -/
def firstOf (octave : Int) : Pitch := ⟨0, octave⟩

/-- The pitch some semitones higher, or lower. -/
def transpose (p : Pitch) (semitones : Int) : Pitch := ofSemitone (p.semitone + semitones)

/-- The names of the pitch classes, spelled with sharps. -/
def classNames : List (List Char) :=
  [['C'], ['C', '#'], ['D'], ['D', '#'], ['E'], ['F'], ['F', '#'], ['G'], ['G', '#'], ['A'],
    ['A', '#'], ['B']]

/-- The name of a pitch class. -/
def className (c : Fin 12) : List Char := classNames[c.val]

/-- The name of a pitch: its class and its octave. -/
def name (p : Pitch) : Except Fault String := do
  let octave ← writeInt p.octave
  return String.ofList (className p.pitchClass ++ octave)

/-! ## Written pitches

A spelling is read off the front of a note, and what follows does not matter, so most typing errors
leave a pitch behind.  Only the first letter decides whether there is one at all. -/

/-- The semitones of a pitch letter above C. -/
def letterOffset? (c : Char) : Option Nat :=
  [('C', 0), ('D', 2), ('E', 4), ('F', 5), ('G', 7), ('A', 9), ('B', 11)].lookup c.toUpper

/-- The accidentals and their shifts in semitones, longer spellings first.  Quarter tones are cut
down toward the natural. -/
def accidentals : List (List Char × Int) :=
  [(['t', 'q', 's'], 1), (['t', 'q', 'f'], -1), (['q', 's'], 0), (['q', 'f'], 0),
    (['b', 'b'], -2), (['#', '#'], 2), (['#'], 1), (['b'], -1), (['x'], 2), (['n'], 0)]

/-- The accidental at the front of a text, as a shift, and the rest; none is no shift. -/
def splitAccidental (s : List Char) : Int × List Char :=
  match accidentals.find? fun a ↦ a.1.isPrefixOf s with
  | some a => (a.2, s.drop a.1.length)
  | none => (0, s)

/-- The octave at the front of a text: digits, perhaps behind a minus sign. -/
def octaveNumeral? (s : List Char) : Option (List Char) :=
  match s with
  | '-' :: r =>
    let ds := r.takeWhile isDigit
    if ds.isEmpty then none else some ('-' :: ds)
  | _ =>
    let ds := s.takeWhile isDigit
    if ds.isEmpty then none else some ds

/-- A pitch as it is written. -/
structure Spelling where
  /-- The semitones of the letter above C. -/
  letter : Nat
  /-- The shift of the accidental. -/
  shift : Int
  /-- The numeral of the octave, if there is one. -/
  octave? : Option (List Char)
  deriving DecidableEq, Repr

/-- Reads a pitch at the front of a text; what follows it does not matter. -/
def Spelling.read? : List Char → Option Spelling
  | [] => none
  | c :: s =>
    (letterOffset? c).map fun letter ↦
      let (shift, rest) := splitAccidental s
      ⟨letter, shift, octaveNumeral? rest⟩

/-- A mark of articulation. -/
def isArticulation (c : Char) : Bool :=
  c == '.' || c == '>' || c == '^' || c == '!' || c == '~'

/-- The text of a note without its articulation marks: on its last line everything from the first
mark on, and the blanks around what is left. -/
def stripArticulation (s : List Char) : List Char :=
  let s := (dropFinalLineFeed s).reverse
  trim ((s.dropWhile (· != '\n')).reverse ++
    (s.takeWhile (· != '\n')).reverse.takeWhile fun c ↦ !isArticulation c)

end Pitch

/-! ## MIDI numbers

The C of octave 4 is 60, and the numbers are not limited to the range of a MIDI file; notes outside
it are left out when a file is arranged. -/

/-- The note name without its octave, and the octave. -/
def splitNoteName : List Char → List Char × List Char
  | c :: '#' :: s => ([c, '#'], s)
  | c :: s => ([c], s)
  | [] => ([], [])

/-- The octave of a note name: a whole number, with blanks around it, a sign, and underscores
between digits. -/
def readOctave? (s : List Char) : Option (List Char) := do
  let s ← dropUnderscores? false (trimNumeral s)
  let ds := (dropSign s).2
  if ds.isEmpty || !ds.all isDigit then none else some s

/-- The MIDI number of a note name; the C of octave 4 is 60. -/
def midiNumber (name : String) : Except Fault Int := do
  let (letter, rest) := splitNoteName name.toList
  match Pitch.classNames.findIdx? (· == letter), readOctave? rest with
  | some pitchClass, some numeral => return ((← readInt numeral) + 1) * 12 + pitchClass
  | _, _ => .error (.malformedNoteName name)

end TextScore
