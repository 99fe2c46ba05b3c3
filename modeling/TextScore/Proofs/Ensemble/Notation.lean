import Mathlib.Data.List.Basic
import TextScore.Proofs.Ensemble.Split
import TextScore.Proofs.Number.Numeral
import TextScore.Proofs.Reports

/-!
# Instruments as they are written

An instrument is declared in full by a line with its id, its display name, its clef and its
transposition.  The line is read as that declaration, unless the word `def` is among the names where
the line is cut.

* `Player`, `Section` — instruments and sections as they are written.
* `Player.read?_line` — the line of an instrument is read as its declaration.
* `Player.splitDeclarations_line_iff` — when it is not cut.
* `Player.outcome_instrument` — what is declared is the instrument.

A display name in quotes may be anything without a quotation mark: it may hold braces, equals signs
and what looks like an attribute.  The reader takes the name off before it looks for attributes, so
the only thing that can interfere is the cutting of the line, which comes before.
-/

set_option autoImplicit false

namespace TextScore

open Text Number

/-! ## Instruments and sections as they are written

The conditions are on the parts, and there are two sets of them: `IsWritten` for what can be read
back at all, and `Uncut` for what the keyword forbids. -/

/-- An integer with its sign. -/
def explicitSign : Int → List Char
  | .ofNat n => '+' :: digits n
  | .negSucc n => '-' :: digits (n + 1)

/-- An instrument as it is declared in full. -/
structure Player where
  /-- The name on staff lines. -/
  id : List Char
  /-- The name that is shown. -/
  displayName : List Char
  /-- The clef. -/
  clef : List Char
  /-- Semitones from written to sounding pitch. -/
  transpose : Int
  deriving DecidableEq

/-- Instruments that are declared together. -/
structure Section where
  /-- The name of the section. -/
  name : List Char
  /-- Its instruments. -/
  players : List Player
  deriving DecidableEq

namespace Player

/-- The attributes of the declaration. -/
def attributes (p : Player) : List Char :=
  ' ' :: ("clef".toList ++ '=' :: (p.clef ++
    ' ' :: ("transpose".toList ++ '=' :: explicitSign p.transpose)))

/-- What stands behind the id. -/
def details (p : Player) : List Char := ' ' :: '"' :: (p.displayName ++ '"' :: p.attributes)

/-- The line that declares the instrument. -/
def line (p : Player) : List Char := "def".toList ++ ' ' :: (p.id ++ p.details)

/-- The declaration on that line. -/
def declaration (p : Player) : Declaration :=
  { id := p.id
    displayName := p.displayName
    transpose? := some (explicitSign p.transpose)
    clef? := some p.clef }

/-- The instrument that is declared. -/
def instrument (p : Player) : Instrument :=
  { id := String.ofList p.id
    displayName := String.ofList p.displayName
    transpose := p.transpose
    clef? := some (String.ofList p.clef) }

/-- The instrument under its id. -/
def entry (p : Player) : String × Instrument := (String.ofList p.id, p.instrument)

/-- An instrument that can be written down in full. -/
structure IsWritten (p : Player) : Prop where
  /-- The id is not empty. -/
  id_ne_nil : p.id ≠ []
  /-- The id is a word. -/
  id_word : ∀ c ∈ p.id, isWord c = true
  /-- The display name is not empty. -/
  name_ne_nil : p.displayName ≠ []
  /-- There is no quote in the display name. -/
  name_quote : '"' ∉ p.displayName
  /-- The clef is not empty. -/
  clef_ne_nil : p.clef ≠ []
  /-- The clef has letters and digits only. -/
  clef_word : ∀ c ∈ p.clef, isAlphanumeric c = true
  /-- The transposition has not too many digits. -/
  writable : isWritable p.transpose = true

/-- The keyword is not among the names where the line would be cut at it. -/
structure Uncut (p : Player) : Prop where
  /-- The id is not the keyword. -/
  id : ¬IsDef p.id
  /-- The keyword does not stand between blanks in the display name. -/
  name : ¬HoldsDef p.displayName

end Player

namespace Section

/-- The line that opens the section. -/
def heading (name : List Char) : List Char :=
  "group".toList ++ ' ' :: '"' :: (name ++ '"' :: [' ', '{'])

/-- The lines that declare the section. -/
def lines (s : Section) : List (List Char) :=
  heading s.name :: (s.players.map Player.line ++ [['}']])

/-- A section that can be written down. -/
structure IsWritten (s : Section) : Prop where
  /-- There is no quote in its name. -/
  name_quote : '"' ∉ s.name
  /-- It has instruments. -/
  players_ne_nil : s.players ≠ []
  /-- They can be written down. -/
  players : ∀ p ∈ s.players, p.IsWritten

/-- The group that is declared. -/
def group (s : Section) : Group :=
  ⟨String.ofList s.name, s.players.map fun p ↦ String.ofList p.id⟩

end Section

/-! ## Transpositions -/

theorem exists_explicitSign (n : Int) :
    ∃ c m, explicitSign n = c :: digits m ∧ (c = '+' ∨ c = '-') := by
  cases n with
  | ofNat n => exact ⟨'+', n, rfl, .inl rfl⟩
  | negSucc n => exact ⟨'-', n + 1, rfl, .inr rfl⟩

theorem explicitSign_ne_nil (n : Int) : explicitSign n ≠ [] := by
  obtain ⟨c, m, h, -⟩ := exists_explicitSign n
  rw [h]
  exact List.cons_ne_nil _ _

/-- A transposition ends with a digit. -/
theorem isDigit_getLast?_explicitSign {n : Int} {c : Char} (h : c ∈ (explicitSign n).getLast?) :
    isDigit c = true := by
  obtain ⟨d, m, hn, -⟩ := exists_explicitSign n
  rw [hn, List.getLast?_cons_of_ne_nil (digits_ne_nil m)] at h
  exact isDigit_of_mem_digits (List.mem_of_getLast? h)

/-- There is no blank and no quote in a transposition. -/
theorem explicitSign_plain (n : Int) : ∀ c ∈ explicitSign n, isBlank c = false ∧ c ≠ '"' := by
  obtain ⟨d, m, hn, hd⟩ := exists_explicitSign n
  rw [hn, List.forall_mem_cons]
  constructor
  · rcases hd with rfl | rfl <;> decide
  · intro c hc
    have hdigit := isDigit_of_mem_digits hc
    refine ⟨isBlank_of_isDigit hdigit, ?_⟩
    rintro rfl
    exact absurd hdigit (by decide)

theorem isTransposition_explicitSign (n : Int) :
    Declaration.isTransposition (explicitSign n) = true := by
  obtain ⟨d, m, hn, hd⟩ := exists_explicitSign n
  have hdigits : (!(digits m).isEmpty && (digits m).all isDigit) = true := by
    rw [Bool.and_eq_true, Bool.not_eq_true', List.isEmpty_eq_false_iff, List.all_eq_true]
    exact ⟨digits_ne_nil m, fun c hc ↦ isDigit_of_mem_digits hc⟩
  rw [hn]
  rcases hd with rfl | rfl
  · exact hdigits
  · exact hdigits

theorem readInt_explicitSign {n : Int} (h : isWritable n = true) :
    readInt (explicitSign n) = .ok n := by
  cases n with
  | ofNat n =>
    have hbound : n < writableBound := of_decide_eq_true h
    rw [explicitSign, readInt, readNat_digits hbound]
    rfl
  | negSucc n => exact readInt_signedDigits h

/-! ## Quotes and attributes

Attributes are found one after the other; behind the display name there are two of them and blanks
between. -/

/-- What holds of all of a text holds of the first character, whatever follows. -/
theorem forall_head?_append {P : Char → Prop} {s : List Char} (hne : s ≠ []) (h : ∀ c ∈ s, P c)
    (r : List Char) : ∀ c ∈ (s ++ r).head?, P c := by
  intro c hc
  rw [List.head?_append_of_ne_nil _ hne] at hc
  exact h c (List.mem_of_mem_head? hc)

theorem dropQuoted?_append {q : List Char} (hq : '"' ∉ q) (r : List Char) :
    dropQuoted? ('"' :: (q ++ '"' :: r)) = some (q, r) := by
  obtain ⟨htake, hdrop⟩ := span_until (r := '"' :: r) hq fun c hc ↦ by cases hc; rfl
  rw [dropQuoted?, htake, hdrop]

theorem dropQuoted?_eq_none {s : List Char} (h : ∀ c ∈ s.head?, c ≠ '"') :
    dropQuoted? s = none := by
  rw [dropQuoted?.eq_def]
  split
  case h_1 => exact absurd rfl (h '"' rfl)
  case h_2 => rfl

/-- There is one blank in front. -/
theorem dropBlanks?_space {s : List Char} (h : ∀ c ∈ s.head?, isBlank c = false) :
    dropBlanks? (' ' :: s) = some s := by
  have hspace : (' ' :: s).head?.any isBlank = true := rfl
  rw [dropBlanks?, if_pos hspace, List.dropWhile_cons_of_pos (by decide),
    dropWhile_isBlank_eq_self h]

namespace Attribute

theorem trimQuotes_eq_self {s : List Char} (h : ∀ c ∈ s, c ≠ '"') : trimQuotes s = s := by
  have hkeep (t : List Char) (ht : ∀ c ∈ t, c ≠ '"') : t.dropWhile (· == '"') = t :=
    (span_append (s := []) (fun _ hc ↦ absurd hc List.not_mem_nil) fun c hc ↦ by
      simpa using ht c (List.mem_of_mem_head? hc)).2
  rw [trimQuotes, hkeep s h, hkeep _ fun c hc ↦ h c (List.mem_reverse.mp hc), List.reverse_reverse]

theorem readValue?_append {value r : List Char} (hne : value ≠ [])
    (hvalue : ∀ c ∈ value, isBlank c = false ∧ c ≠ '"') (hr : ∀ c ∈ r.head?, isBlank c = true) :
    readValue? (value ++ r) = some (value, r) := by
  have hquote : ∀ c ∈ (value ++ r).head?, c ≠ '"' :=
    forall_head?_append hne (fun c hc ↦ (hvalue c hc).2) r
  obtain ⟨htake, hdrop⟩ := span_append (p := fun c ↦ !isBlank c) (s := value) (r := r)
    (fun c hc ↦ by simp [(hvalue c hc).1]) fun c hc ↦ by simp [hr c hc]
  rw [readValue?, dropQuoted?_eq_none hquote]
  dsimp only
  rw [htake, hdrop, if_neg (by simpa using hne)]

theorem read?_append {key value r : List Char} (hkey : key ≠ [])
    (hkey' : ∀ c ∈ key, isKeyChar c = true) (hne : value ≠ [])
    (hvalue : ∀ c ∈ value, isBlank c = false ∧ c ≠ '"') (hr : ∀ c ∈ r.head?, isBlank c = true) :
    read? (key ++ '=' :: (value ++ r)) = some (⟨key.map Char.toLower, value⟩, r) := by
  obtain ⟨htake, hdrop⟩ := span_append (r := '=' :: (value ++ r)) hkey' fun c hc ↦ by
    cases hc
    decide
  have hblank : (value ++ r).dropWhile isBlank = value ++ r :=
    dropWhile_isBlank_eq_self (forall_head?_append hne (fun c hc ↦ (hvalue c hc).1) r)
  rw [read?, htake, hdrop, List.dropWhile_cons_of_neg (by decide), if_neg (by simpa using hkey)]
  show (readValue? ((value ++ r).dropWhile isBlank)).map
    (fun p ↦ (Attribute.mk (key.map Char.toLower) (trimQuotes p.1), p.2)) = _
  rw [hblank, readValue?_append hne hvalue hr, Option.map_some,
    trimQuotes_eq_self fun c hc ↦ (hvalue c hc).2]

/-- An attribute with a blank in front is the first one of a text. -/
theorem all_of_read? {s r : List Char} {a : Attribute} (h : read? s = some (a, r)) :
    all (' ' :: s) = a :: all r := by
  have hspace : recogniser.read? false (' ' :: s) = none := by
    show read? (' ' :: s) = none
    rw [read?, List.takeWhile_cons_of_neg (by decide)]
    rfl
  have hread : recogniser.read? false s = some (a, r) := h
  rw [all, Recogniser.pieces_of_none (fun _ _ ↦ rfl) hspace, found_plain,
    Recogniser.pieces_of_some hread, found_found, all]

theorem all_nil : all [] = [] := by
  rw [all, Recogniser.pieces_nil]
  rfl

end Attribute

/-! ## The line of an instrument -/

namespace Player

variable {p : Player}

theorem clef_plain (hp : p.IsWritten) : ∀ c ∈ p.clef, isBlank c = false ∧ c ≠ '"' := by
  intro c hc
  have hc := hp.clef_word c hc
  refine ⟨isBlank_of_isWord (by rw [isWord, hc]; rfl), ?_⟩
  rintro rfl
  exact absurd hc (by decide)

theorem all_attributes (hp : p.IsWritten) : Attribute.all p.attributes =
    [⟨"clef".toList, p.clef⟩, ⟨"transpose".toList, explicitSign p.transpose⟩] := by
  have hkeys : (∀ c ∈ "clef".toList, Attribute.isKeyChar c = true) ∧
      ∀ c ∈ "transpose".toList, Attribute.isKeyChar c = true :=
    ⟨List.all_eq_true.mp (by decide +kernel), List.all_eq_true.mp (by decide +kernel)⟩
  have htranspose := Attribute.read?_append (by decide) hkeys.2 (explicitSign_ne_nil p.transpose)
    (explicitSign_plain p.transpose) (r := []) fun c hc ↦ nomatch hc
  rw [List.append_nil] at htranspose
  rw [attributes, Attribute.all_of_read? (Attribute.read?_append (by decide) hkeys.1 hp.clef_ne_nil
    (clef_plain hp) fun c hc ↦ by cases hc; decide), Attribute.all_of_read? htranspose,
    Attribute.all_nil]
  rfl

/-- The attributes stay on the line. -/
theorem newline_attributes (hp : p.IsWritten) : p.attributes.contains '\n' = false := by
  have hclef : '\n' ∉ p.clef := fun h ↦ absurd (clef_plain hp _ h).1 (by decide)
  have htranspose : '\n' ∉ explicitSign p.transpose := fun h ↦
    absurd (explicitSign_plain p.transpose _ h).1 (by decide)
  simp [attributes, hclef, htranspose]

theorem isWord_details {c : Char} (hc : c ∈ p.details.head?) : isWord c = false := by
  cases hc
  decide

theorem splitDisplayName_details (hp : p.IsWritten) :
    Declaration.splitDisplayName p.details = (p.displayName, p.attributes) := by
  rw [Declaration.splitDisplayName, details, dropBlanks?_space fun c hc ↦ by cases hc; decide]
  dsimp only
  rw [dropQuoted?_append hp.name_quote]

/-- The line of an instrument is read as its declaration. -/
theorem read?_line (hp : p.IsWritten) : Declaration.read? p.line = some p.declaration := by
  obtain ⟨htake, hdrop⟩ := span_append (s := p.id) hp.id_word fun c hc ↦ isWord_details hc
  have hid : ∀ c ∈ (p.id ++ p.details).head?, isBlank c = false :=
    forall_head?_append hp.id_ne_nil (fun c hc ↦ isBlank_of_isWord (hp.id_word c hc)) _
  have hfull : Declaration.readFull? p.line = some p.declaration := by
    rw [Declaration.readFull?, line, dropKeyword?_append]
    simp only [Option.bind_eq_bind, Option.bind_some]
    rw [dropBlanks?_space hid, Option.bind_some, htake, hdrop, splitDisplayName_details hp,
      all_attributes hp, if_neg (by simpa using hp.id_ne_nil), newline_attributes hp]
    rfl
  rw [Declaration.read?, hfull]
  rfl

end Player

/-! ## The line is cut nowhere

Both directions are needed: a line that is cut declares something else. -/

theorem not_holdsDef_attribute {key value t : List Char} (hkey : ∀ c ∈ key, isWord c = true)
    (hvalue : ∀ c ∈ value, isBlank c = false) (ht : ¬HoldsDef t) :
    ¬HoldsDef (' ' :: (key ++ '=' :: (value ++ t))) := by
  have hstarts : startsDef (key ++ '=' :: (value ++ t)) ≠ true := by
    intro h
    obtain ⟨-, hblank⟩ := (startsDef_append hkey fun c hc ↦ by cases hc; decide).mp h
    exact absurd (show isBlank '=' = true from hblank) (by decide)
  have hplain : ∀ c ∈ key ++ '=' :: value, isBlank c = false := by
    rw [List.forall_mem_append, List.forall_mem_cons]
    exact ⟨fun c hc ↦ isBlank_of_isWord (hkey c hc), by decide, hvalue⟩
  intro h
  rcases holdsDef_cons.mp h with ⟨-, h⟩ | h
  · exact hstarts h
  · refine ht (.of_not_blank hplain ?_)
    rwa [List.append_assoc, List.cons_append]

namespace Player

variable {p : Player}

theorem not_holdsDef_attributes (hp : p.IsWritten) : ¬HoldsDef p.attributes := by
  have hkeys : (∀ c ∈ "clef".toList, isWord c = true) ∧
      ∀ c ∈ "transpose".toList, isWord c = true :=
    ⟨List.all_eq_true.mp (by decide +kernel), List.all_eq_true.mp (by decide +kernel)⟩
  have htranspose := not_holdsDef_attribute hkeys.2
    (fun c hc ↦ (explicitSign_plain p.transpose c hc).1) not_holdsDef_nil
  rw [List.append_nil] at htranspose
  exact not_holdsDef_attribute hkeys.1 (fun c hc ↦ (clef_plain hp c hc).1) htranspose

theorem not_holdsDef_line (hp : p.IsWritten) (hcut : p.Uncut) : ¬HoldsDef p.line := by
  have hdetails : ¬HoldsDef p.details := by
    intro h
    rcases holdsDef_cons.mp h with ⟨-, h⟩ | h
    · have hquote := (startsDef_append (w := []) (fun _ hc ↦ absurd hc List.not_mem_nil)
        fun c hc ↦ by cases hc; decide).mp h
      exact absurd hquote.1 (by decide)
    · have hname := h.of_not_blank (s := ['"']) (List.forall_mem_singleton.mpr (by decide))
      rcases hname.of_append (by decide) (by decide) with h | h
      · exact hcut.name h
      · exact not_holdsDef_attributes hp h
  intro h
  have hdef : IsDef "def".toList := by decide +kernel
  have hrest := h.of_not_blank fun c hc ↦ isBlank_of_isWord (isWord_of_isDef hdef hc)
  rcases holdsDef_cons.mp hrest with ⟨-, h⟩ | h
  · exact hcut.id ((startsDef_append hp.id_word fun c hc ↦ isWord_details hc).mp h).1
  · exact hdetails (h.of_not_blank fun c hc ↦ isBlank_of_isWord (hp.id_word c hc))

/-- The keyword among the names cuts the line, whether quotes are around it or not. -/
theorem uncut_of_not_holdsDef (h : ¬HoldsDef p.line) : p.Uncut where
  id hid := h ⟨"def".toList, ' ', p.id, ' ', _, rfl, by decide, hid, by decide⟩
  name hname := by
    refine h (hname.mono ⟨"def".toList ++ ' ' :: (p.id ++ [' ', '"']), '"' :: p.attributes, ?_⟩)
    simp [line, details]

/-- The line of an instrument is one declaration just if the keyword is not among its names. -/
theorem splitDeclarations_line_iff (hp : p.IsWritten) :
    splitDeclarations p.line = [p.line] ↔ p.Uncut := by
  have hne : p.line ≠ [] := List.cons_ne_nil _ _
  rw [splitDeclarations_eq_singleton_iff hne]
  exact ⟨uncut_of_not_holdsDef, not_holdsDef_line hp⟩

/-! ## The line is one of a declaration -/

theorem isDigit_getLast?_line {c : Char} (h : c ∈ p.line.getLast?) : isDigit c = true := by
  have hline : ∃ s, p.line = s ++ explicitSign p.transpose :=
    ⟨"def".toList ++ ' ' :: (p.id ++ ' ' :: '"' :: (p.displayName ++ '"' ::
      ' ' :: ("clef".toList ++ '=' :: (p.clef ++ ' ' :: ("transpose".toList ++ ['=']))))),
      by simp [line, details, attributes]⟩
  obtain ⟨s, hs⟩ := hline
  rw [hs, List.getLast?_append_of_ne_nil _ (explicitSign_ne_nil _)] at h
  exact isDigit_getLast?_explicitSign h

theorem trim_line : trim p.line = p.line := by
  refine trim_eq_self (fun c hc ↦ ?_) fun c hc ↦ isBlank_of_isDigit (isDigit_getLast?_line hc)
  cases hc
  decide

theorem getLast?_line : (p.line.getLast? == some '}') = false := by
  rw [beq_eq_false_iff_ne]
  intro h
  exact absurd (isDigit_getLast?_line h) (by decide)

/-- What is declared is the instrument, and nothing is reported. -/
theorem outcome_instrument (hp : p.IsWritten) :
    p.declaration.instrument.outcome = (.ok p.instrument, #[]) := by
  have hsemitones : p.declaration.semitones = pure p.transpose := by
    show (if Declaration.isTransposition (explicitSign p.transpose) then _ else _) = _
    rw [if_pos (isTransposition_explicitSign _), readInt_explicitSign hp.writable]
    rfl
  have hname : p.displayName.isEmpty = false := by
    rw [List.isEmpty_eq_false_iff]
    exact hp.name_ne_nil
  rw [Declaration.instrument, hsemitones, pure_bind]
  show (Except.ok { p.instrument with
    displayName := String.ofList (if p.displayName.isEmpty then p.id else p.displayName) }, #[]) = _
  rw [hname]
  rfl

end Player

end TextScore
