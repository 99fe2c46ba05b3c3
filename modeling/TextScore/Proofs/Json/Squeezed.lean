import TextScore.Proofs.Json.RoundTrip

/-!
# White space between the tokens of JSON text

The layouts of JSON text differ in the white space between tokens and in nothing else: without the
white space that stands outside of string literals, every layout is the compact one.

This is about the texts alone, whatever the doubles in them are, and it needs no reader.  It is
shown like what is known of the text outside of literals, piece by piece: line breaks and the blanks
behind colons become nothing, and everything else becomes itself.

## What is here

* `squeeze` — a text without the white space outside of its literals.
* `becomes_escapeChar`, `becomes_quote` — inside of a literal everything stays.
* `squeeze_render` — of a rendered value the compact one is left.
-/

set_option autoImplicit false

namespace TextScore.Json

open Number

/-! ## Squeezing

White space counts as such only outside of literals; blanks in a title stay. -/

/-- A text without the white space outside of literals, for a reader at a place. -/
def squeezeFrom (p : Place) : List Char → List Char
  | [] => []
  | c :: s =>
    if p = .outside ∧ isSpace c = true then squeezeFrom (p.next c) s
    else c :: squeezeFrom (p.next c) s

/-- A text without the white space outside of its string literals. -/
def squeeze (s : List Char) : List Char := squeezeFrom .outside s

theorem becomes_plain {c : Char} (hquote : c ≠ '"') (hspace : isSpace c = false) :
    Becomes squeeze [c] [c] := fun r ↦ by
  have hnext : Place.outside.next c = .outside := if_neg hquote
  show squeezeFrom .outside (c :: r) = c :: squeezeFrom .outside r
  rw [squeezeFrom, hnext, if_neg (by simp [hspace])]

/-- White space goes. -/
theorem becomes_space {s : List Char} (h : ∀ c ∈ s, isSpace c = true) : Becomes squeeze s [] := by
  induction s with
  | nil => exact .nil
  | cons c s ih =>
    rw [List.forall_mem_cons] at h
    have hquote : c ≠ '"' := by
      rintro rfl
      exact absurd h.1 (by decide)
    have hnext : Place.outside.next c = .outside := if_neg hquote
    intro r
    show squeezeFrom .outside (c :: (s ++ r)) = squeezeFrom .outside r
    rw [squeezeFrom, hnext, if_pos ⟨rfl, h.1⟩]
    exact ih h.2 r

theorem becomes_newline (l : Layout) (level level' : Nat) :
    Becomes squeeze (l.newline level) (Layout.newline ⟨none⟩ level') :=
  becomes_space (isSpace_newline l level)

theorem becomes_colon (l : Layout) : Becomes squeeze l.colon (Layout.colon ⟨none⟩) := by
  have hmark : Becomes squeeze [':'] [':'] := becomes_plain (by decide) (by decide)
  rw [Layout.colon]
  split
  · exact hmark
  · exact hmark.append (becomes_space (List.forall_mem_singleton.mpr (by decide)))

/-! ## Literals -/

theorem squeezeFrom_cons {p : Place} (hp : p ≠ .outside) (c : Char) (s : List Char) :
    squeezeFrom p (c :: s) = c :: squeezeFrom (p.next c) s := by
  rw [squeezeFrom, if_neg fun h ↦ hp h.1]

/-- Inside of a literal an escaped character stays. -/
theorem becomes_escapeChar (c : Char) :
    Becomes (squeezeFrom .inside) (escapeChar c) (escapeChar c) := by
  have hplain {d : Char} (hd : d ≠ '"' ∧ d ≠ '\\') : Becomes (squeezeFrom .inside) [d] [d] := by
    intro r
    rw [List.singleton_append, squeezeFrom_cons (by decide), Place.next_inside hd]
    rfl
  obtain ⟨h, hc⟩ | ⟨d, ds, h, hds⟩ := escapeChar_cases c
  · rw [h]
    exact hplain hc
  · rw [h]
    have hpair : Becomes (squeezeFrom .inside) ['\\', d] ['\\', d] := fun _ ↦ rfl
    exact hpair.append (.of_forall fun e he ↦ hplain (hds e he))

/-- A literal stays as it is. -/
theorem becomes_quote (s : List Char) : Becomes squeeze (quote s) (quote s) := by
  have hbody : Becomes (squeezeFrom .inside) (s.flatMap escapeChar) (s.flatMap escapeChar) := by
    induction s with
    | nil => exact .nil
    | cons c s ih => exact (becomes_escapeChar c).append ih
  intro r
  have hclosing : squeezeFrom .inside ('"' :: r) = '"' :: squeeze r := rfl
  show '"' :: squeezeFrom .inside ((s.flatMap escapeChar ++ ['"']) ++ r) = _
  rw [List.append_assoc, hbody, List.singleton_append, hclosing, quote]
  simp only [List.cons_append, List.append_assoc, List.nil_append]

/-! ## Values -/

/-- A text without quotes and white space stays as it is. -/
theorem becomes_word {s : List Char} (h : s.all (fun c ↦ c != '"' && !isSpace c) = true) :
    Becomes squeeze s s := by
  refine .of_forall fun c hc ↦ ?_
  have hchar := List.all_eq_true.mp h c hc
  rw [Bool.and_eq_true, bne_iff_ne, Bool.not_eq_true'] at hchar
  exact becomes_plain hchar.1 hchar.2

theorem becomes_numeral {s : List Char} (h : ∀ c ∈ s, c ∈ numeralChars) : Becomes squeeze s s := by
  have hall : numeralChars.all (fun c ↦ c != '"' && !isSpace c) = true := by decide
  exact becomes_word (List.all_eq_true.mpr fun c hc ↦ List.all_eq_true.mp hall c (h c hc))

theorem becomes_showShortest (x : Float) :
    Becomes squeeze (showShortest specialNames x) (showShortest specialNames x) := by
  by_cases hx : x.isFinite = true
  · exact becomes_numeral fun _ ↦ mem_showShortest hx
  · obtain h | ⟨negative, h⟩ := showShortest_of_not_isFinite specialNames hx
    · rw [h]
      exact becomes_word (by decide)
    · rw [h]
      cases negative <;> exact becomes_word (by decide)

/-- Between marks, the items stay and their layout goes. -/
theorem becomes_enclose (l : Layout) (level level' : Nat) {opening closing : Char}
    (hopening : opening ≠ '"' ∧ isSpace opening = false)
    (hclosing : closing ≠ '"' ∧ isSpace closing = false) {ss ts : List (List Char)}
    (h : List.Forall₂ (Becomes squeeze) ss ts) :
    Becomes squeeze (l.enclose level opening closing ss)
      (Layout.enclose ⟨none⟩ level' opening closing ts) :=
  .enclose (becomes_plain hopening.1 hopening.2) (becomes_plain hclosing.1 hclosing.2)
    (becomes_plain (by decide) (by decide)) (becomes_newline l _ _) (becomes_newline l _ _) h

mutual

/-- Of a rendered value the compact one is left. -/
theorem becomes_render (l : Layout) (level level' : Nat) : ∀ j : Json,
    Becomes squeeze (render l level j) (render ⟨none⟩ level' j)
  | null => becomes_word (s := "null".toList) (by decide)
  | bool true => becomes_word (s := "true".toList) (by decide)
  | bool false => becomes_word (s := "false".toList) (by decide)
  | int n => becomes_numeral fun _ ↦ mem_numeralChars_of_mem_signedDigits
  | double x => becomes_showShortest x
  | str s => becomes_quote s
  | arr items => becomes_enclose l level level' (by decide) (by decide)
    (becomes_renderItems l (level + 1) (level' + 1) items)
  | obj fields => becomes_enclose l level level' (by decide) (by decide)
    (becomes_renderFields l (level + 1) (level' + 1) fields)

theorem becomes_renderItems (l : Layout) (level level' : Nat) : ∀ js : List Json,
    List.Forall₂ (Becomes squeeze) (renderItems l level js) (renderItems ⟨none⟩ level' js)
  | [] => .nil
  | j :: js => .cons (becomes_render l level level' j) (becomes_renderItems l level level' js)

theorem becomes_renderFields (l : Layout) (level level' : Nat) : ∀ fs : List (String × Json),
    List.Forall₂ (Becomes squeeze) (renderFields l level fs) (renderFields ⟨none⟩ level' fs)
  | [] => .nil
  | (k, j) :: fs =>
    .cons (((becomes_quote k.toList).append (becomes_colon l)).append
      (becomes_render l level level' j)) (becomes_renderFields l level level' fs)

end

/-- Without the white space outside of its literals, every layout of a value is the compact one. -/
theorem squeeze_render (l : Layout) (level : Nat) (j : Json) :
    squeeze (j.render l level) = j.render ⟨none⟩ 0 := by
  have h := becomes_render l level 0 j []
  rwa [List.append_nil, show squeeze [] = [] from rfl, List.append_nil] at h

end TextScore.Json
