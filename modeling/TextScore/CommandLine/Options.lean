import TextScore.Text.Character
import TextScore.Text.Line

/-!
# Options on a command line

Options have long names behind two hyphens and may have one-letter names behind one; one-letter
options can stand together.  A value is the next argument, or follows an equals sign or the letter
directly.  Two hyphens alone end the options.  Which options there are, and whether they may follow
other arguments, is a `Grammar`; the program has one and each of its commands has one.

* `Flag` — the options.
* `UsageError` — what can be wrong with a command line.
* `Arguments.parse` — the options and the other arguments, in order.
* `Suggestion.suggestions` — the names that a mistyped name may have meant, best first.

Nothing is interpreted here.  An option that is given twice is kept twice, and which one counts is
for the reader of its value to say.
-/

namespace TextScore.Suggestion

/-! ## Suggestions for mistyped names

Two names are alike as far as they consist of the same stretches in the same order: the longest
common stretch counts, and then, on both sides of it, the longest common stretches there.  The
comparison is not symmetric where stretches are equally long, so it matters which name is first. -/

/-- The length of the longest common beginning. -/
def commonStart : List Char → List Char → Nat
  | a :: s, b :: t => if a = b then commonStart s t + 1 else 0
  | _, _ => 0

/-- The longest common stretch: its start in both names and its length.  Of equally long ones the
leftmost in the first name counts, then the leftmost in the second. -/
def longestStretch (s t : List Char) : Nat × Nat × Nat :=
  let starts := (List.range s.length).flatMap fun i ↦ (List.range t.length).map fun j ↦ (i, j)
  starts.foldl
    (fun best p ↦
      let n := commonStart (s.drop p.1) (t.drop p.2)
      if best.2.2 < n then (p.1, p.2, n) else best)
    (0, 0, 0)

/-- How many characters two names share; the fuel bounds how often they are cut. -/
def commonLengthWith : Nat → List Char → List Char → Nat
  | 0, _, _ => 0
  | fuel + 1, s, t =>
    let (i, j, n) := longestStretch s t
    if n = 0 then 0
    else
      commonLengthWith fuel (s.take i) (t.take j) + n +
        commonLengthWith fuel (s.drop (i + n)) (t.drop (j + n))

/-- How many characters two names share.  Every cut makes them shorter. -/
def commonLength (s t : List Char) : Nat := commonLengthWith (s.length + 1) s t

/-- At least three fifths of the characters of the two names are shared. -/
def isClose (s t : List Char) : Bool :=
  (s.length + t.length) * 3 ≤ commonLength s t * 2 * 5

/-- The share of common characters of `s` and `word` is at least that of `t` and `word`. -/
def closerOrAlike (word s t : List Char) : Bool :=
  commonLength t word * (s.length + word.length) ≤ commonLength s word * (t.length + word.length)

/-- The order of suggestions for a word: closer names first, equally close ones in reverse order of
the alphabet. -/
def notAfter (word a b : String) : Bool :=
  closerOrAlike word.toList a.toList b.toList &&
    (!closerOrAlike word.toList b.toList a.toList || decide (b ≤ a))

/-- At most three of the names, those that are closest to the word. -/
def suggestions (word : String) (names : List String) : List String :=
  ((names.filter fun n ↦ isClose n.toList word.toList).mergeSort (notAfter word)).take 3

end TextScore.Suggestion

namespace TextScore.CommandLine

open Text

/-! ## Options on a command line

Reading an argument may take the next one with it, so the reading goes by the number of arguments
that are left, and the lemmas on lengths say that an option takes at least its own. -/

/-- The options of the program and of its commands. -/
inductive Flag
  /-- Show the version. -/
  | version
  /-- Show more of what is done. -/
  | verbose
  /-- Show how the program is used. -/
  | help
  /-- The form of the output. -/
  | format
  /-- The file for the output. -/
  | output
  /-- The tempo of scores that name none. -/
  | tempo
  deriving DecidableEq, Repr

namespace Flag

/-- The name behind two hyphens. -/
def long : Flag → String
  | version => "--version"
  | verbose => "--verbose"
  | help => "--help"
  | format => "--format"
  | output => "--output"
  | tempo => "--tempo"

/-- The letter behind one hyphen. -/
def short? : Flag → Option Char
  | verbose => some 'v'
  | help => some 'h'
  | output => some 'o'
  | _ => none

/-- The option has a value. -/
def takesValue : Flag → Bool
  | format | output | tempo => true
  | _ => false

end Flag

/-- What is wrong with a command line. -/
inductive UsageError
  /-- There is no such option; some others have similar names. -/
  | noSuchOption (name : String) (similar : List String)
  /-- The value of an option is missing. -/
  | requiresValue (name : String)
  /-- An option that has no value is given one. -/
  | takesNoValue (name : String)
  /-- No command is named. -/
  | missingCommand
  /-- There is no such command. -/
  | noSuchCommand (name : String)
  /-- The score is not named. -/
  | missingScore
  /-- The score does not exist. -/
  | scoreMissing (path : String)
  /-- The score is a folder. -/
  | scoreIsFolder (path : String)
  /-- The output format is not known. -/
  | unknownFormat (value : String)
  /-- The tempo is not a number. -/
  | tempoNotNumeric (value : String)
  /-- The tempo is out of range. -/
  | tempoOutOfRange (value : String)
  /-- There are too many arguments. -/
  | unexpectedArguments (values : List String)
  deriving DecidableEq, Repr

namespace UsageError

/-- What is said about similar names. -/
def similarText : List String → String
  | [] => ""
  | [name] => " Did you mean " ++ name ++ "?"
  | names =>
    let sorted := names.mergeSort fun a b ↦ decide (a ≤ b)
    " (Possible options: " ++ String.intercalate ", " sorted ++ ")"

/-- What is said about the error. -/
def message : UsageError → String
  | noSuchOption name similar => "No such option: " ++ name ++ similarText similar
  | requiresValue name => "Option " ++ quoted name ++ " requires an argument."
  | takesNoValue name => "Option " ++ quoted name ++ " does not take a value."
  | missingCommand => "Missing command."
  | noSuchCommand name => "No such command " ++ quoted name ++ "."
  | missingScore => "Missing argument 'SCORE_FILE'."
  | scoreMissing path =>
    "Invalid value for 'SCORE_FILE': File " ++ quoted path ++ " does not exist."
  | scoreIsFolder path =>
    "Invalid value for 'SCORE_FILE': File " ++ quoted path ++ " is a directory."
  | unknownFormat value =>
    "Invalid value for '--format': " ++ quoted value ++ " is not one of 'text', 'json'."
  | tempoNotNumeric value =>
    "Invalid value for '--tempo': " ++ quoted value ++ " is not a valid float range."
  | tempoOutOfRange value =>
    "Invalid value for '--tempo': " ++ value ++ " is not in the range 1.0<=x<=1000.0."
  | unexpectedArguments values =>
    "Got unexpected extra argument" ++ (if values.length = 1 then "" else "s") ++ " (" ++
      String.intercalate " " values ++ ")"

/-- The usage of the command is shown with the message.  It is not when an option is given a value
wrongly. -/
def showsUsage : UsageError → Bool
  | requiresValue _ | takesNoValue _ => false
  | _ => true

end UsageError

/-- The arguments of a command. -/
structure Arguments where
  /-- The options and their values, in order. -/
  options : List (Flag × String) := []
  /-- The other arguments, in order. -/
  positional : List String := []
  deriving DecidableEq, Repr

namespace Arguments

/-- How often an option is given. -/
def count (a : Arguments) (f : Flag) : Nat := a.options.countP fun o ↦ o.1 == f

/-- The value of an option; the last one counts. -/
def value? (a : Arguments) (f : Flag) : Option String :=
  (a.options.reverse.find? fun o ↦ o.1 == f).map (·.2)

/-- The options in the order in which they were first given. -/
def flags (a : Arguments) : List Flag := (a.options.map (·.1)).eraseDups

/-- How the arguments of a command are read. -/
structure Grammar where
  /-- The options. -/
  accepted : List Flag
  /-- Options may follow other arguments. -/
  interspersed : Bool

namespace Grammar

/-- The option with a long name. -/
def long? (g : Grammar) (name : String) : Option Flag := g.accepted.find? fun f ↦ f.long == name

/-- The option with a letter. -/
def short? (g : Grammar) (c : Char) : Option Flag :=
  g.accepted.find? fun f ↦ f.short? == some c

/-- A long option with the value behind its equals sign, and the arguments after it. -/
def readLong (f : Flag) (name : String) (value? : Option String) (rest : List String) :
    Except UsageError ((Flag × String) × List String) :=
  if f.takesValue then
    match value?, rest with
    | some value, rest => .ok ((f, value), rest)
    | none, value :: rest => .ok ((f, value), rest)
    | none, [] => .error (.requiresValue name)
  else
    match value? with
    | some _ => .error (.takesNoValue name)
    | none => .ok ((f, ""), rest)

/-- The options that the letters behind a hyphen stand for, and the arguments after them.  What
follows the letter of an option with a value is its value. -/
def readShort (g : Grammar) (rest : List String) :
    List Char → Except UsageError (List (Flag × String) × List String)
  | [] => .ok ([], rest)
  | c :: cs =>
    let name := String.ofList ['-', c]
    match g.short? c with
    | none => .error (.noSuchOption name [])
    | some f =>
      if f.takesValue then
        match cs, rest with
        | [], value :: rest => .ok ([(f, value)], rest)
        | [], [] => .error (.requiresValue name)
        | cs, rest => .ok ([(f, String.ofList cs)], rest)
      else do
        let (os, rest) ← readShort g rest cs
        return ((f, "") :: os, rest)

/-- The name of an argument before its first equals sign, and the value behind it. -/
def splitValue (arg : String) : String × Option String :=
  let s := arg.toList
  (String.ofList (s.takeWhile (· != '=')),
    match s.dropWhile (· != '=') with
    | [] => none
    | _ :: value => some (String.ofList value))

/-- The options that an argument with a hyphen in front stands for, and the arguments after
them. -/
def readOptions (g : Grammar) (arg : String) (rest : List String) :
    Except UsageError (List (Flag × String) × List String) :=
  let (name, value?) := splitValue arg
  match g.long? name with
  | some f => do
    let (o, rest) ← readLong f name value? rest
    return ([o], rest)
  | none =>
    if ['-', '-'].isPrefixOf arg.toList then
      .error (.noSuchOption name (Suggestion.suggestions name (g.accepted.map Flag.long)))
    else readShort g rest (arg.toList.drop 1)

/-- The argument is an option: a hyphen and more. -/
def isOption (arg : String) : Bool :=
  match arg.toList with
  | '-' :: _ :: _ => true
  | _ => false

theorem length_readLong {f : Flag} {name : String} {value? : Option String}
    {rest r : List String} {o : Flag × String} (h : readLong f name value? rest = .ok (o, r)) :
    r.length ≤ rest.length := by
  unfold readLong at h
  split at h
  case isTrue =>
    split at h
    case h_1 => cases h; exact Nat.le_refl _
    case h_2 => cases h; simp
    case h_3 => simp at h
  case isFalse =>
    split at h
    case h_1 => simp at h
    case h_2 => cases h; exact Nat.le_refl _

theorem length_readShort {g : Grammar} {rest r : List String} {cs : List Char}
    {os : List (Flag × String)} (h : readShort g rest cs = .ok (os, r)) :
    r.length ≤ rest.length := by
  induction cs generalizing os r with
  | nil => cases h; exact Nat.le_refl _
  | cons c cs ih =>
    unfold readShort at h
    dsimp only at h
    split at h
    case h_1 => simp at h
    case h_2 f _ =>
      split at h
      case isTrue =>
        split at h
        case h_1 => cases h; simp
        case h_2 => simp at h
        case h_3 => cases h; exact Nat.le_refl _
      case isFalse =>
        cases hr : readShort g rest cs with
        | error e => simp [hr, bind, Except.bind] at h
        | ok p =>
          obtain ⟨os', r'⟩ := p
          simp [hr, bind, Except.bind, pure, Except.pure] at h
          exact h.2 ▸ ih hr

theorem length_readOptions {g : Grammar} {arg : String} {rest r : List String}
    {os : List (Flag × String)} (h : g.readOptions arg rest = .ok (os, r)) :
    r.length ≤ rest.length := by
  unfold readOptions at h
  dsimp only at h
  split at h
  case h_1 f _ =>
    cases hl : readLong f (splitValue arg).1 (splitValue arg).2 rest with
    | error e => simp [hl, bind, Except.bind] at h
    | ok p =>
      obtain ⟨o, r'⟩ := p
      simp [hl, bind, Except.bind, pure, Except.pure] at h
      rw [← h.2]
      exact length_readLong hl
  case h_2 =>
    split at h
    case isTrue => simp at h
    case isFalse => exact length_readShort h

/-- The arguments behind those that are read already. -/
def parseOnto (g : Grammar) (a : Arguments) : List String → Except UsageError Arguments
  | [] => .ok a
  | arg :: rest =>
    if arg = "--" then .ok { a with positional := a.positional ++ rest }
    else if isOption arg then
      match h : g.readOptions arg rest with
      | .error e => .error e
      | .ok (os, rest') =>
        have := length_readOptions h
        parseOnto g { a with options := a.options ++ os } rest'
    else if g.interspersed then
      parseOnto g { a with positional := a.positional ++ [arg] } rest
    else .ok { a with positional := a.positional ++ arg :: rest }
termination_by args => args.length

/-- The options and the other arguments of a command line. -/
def parse (g : Grammar) (args : List String) : Except UsageError Arguments := parseOnto g {} args

end Grammar

end Arguments

end TextScore.CommandLine
