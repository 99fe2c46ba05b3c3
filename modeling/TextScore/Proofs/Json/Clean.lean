import TextScore.Proofs.Json.Outside
import TextScore.Text.Line

/-!
# The characters of JSON text

A string literal has other characters in place of the control characters in it, so JSON text has no
control character but the line feeds between its lines, whatever is in the value.

This is the one property of the text that can be told character by character, and it is kept by
putting texts together.  So the proof is one lemma for each way in which texts are put together, and
one case for each kind of value.  What a value consists of needs no hypothesis: a string is escaped
and a double has digits or a name.

## What is here

* `Json.Clean` — a text without control characters other than line feeds.
* `Json.clean_escapeChar` — in place of a control character others are written.
* `Json.clean_render` — every value is rendered so.
-/

set_option autoImplicit false

namespace TextScore.Json

open Text Number

/-- Not one of the first control characters, unless it is the line feed. -/
def isClean (c : Char) : Bool := c == '\n' || 0x20 ≤ c.toNat

/-- A text has no such control character but line feeds. -/
def Clean (s : List Char) : Prop := ∀ c ∈ s, isClean c = true

namespace Clean

variable {s t : List Char}

theorem of_all (h : s.all isClean = true) : Clean s := List.all_eq_true.mp h

theorem nil : Clean [] := of_all rfl

theorem cons {c : Char} (hc : isClean c = true) (hs : Clean s) : Clean (c :: s) :=
  List.forall_mem_cons.mpr ⟨hc, hs⟩

theorem append (hs : Clean s) (ht : Clean t) : Clean (s ++ t) :=
  List.forall_mem_append.mpr ⟨hs, ht⟩

theorem of_numeral (h : ∀ c ∈ s, c ∈ numeralChars) : Clean s := by
  have hall : Clean numeralChars := of_all (by decide)
  exact fun c hc ↦ hall c (h c hc)

theorem intercalate {sep : List Char} (hsep : Clean sep) {ss : List (List Char)}
    (h : ∀ s ∈ ss, Clean s) : Clean (sep.intercalate ss) := fun c hc ↦ by
  rcases mem_of_mem_joinWith hc with hc | ⟨s, hs, hc⟩
  · exact hsep c hc
  · exact h s hs c hc

theorem newline (l : Layout) (level : Nat) : Clean (l.newline level) := by
  rw [Layout.newline]
  split
  · exact nil
  · refine cons (by decide) fun c hc ↦ ?_
    rw [List.eq_of_mem_replicate hc]
    decide

theorem colon (l : Layout) : Clean l.colon := by
  rw [Layout.colon]
  split <;> exact of_all (by decide)

theorem enclose (l : Layout) (level : Nat) {opening closing : Char} (hopening : Clean [opening])
    (hclosing : Clean [closing]) {ss : List (List Char)} (h : ∀ s ∈ ss, Clean s) :
    Clean (l.enclose level opening closing ss) := by
  have hsep : Clean (',' :: l.newline (level + 1)) := cons (by decide) (newline l _)
  have hbody := intercalate hsep h
  cases ss with
  | nil => exact hopening.append hclosing
  | cons s ss =>
    exact hopening.append ((((newline l _).append hbody).append (newline l _)).append hclosing)

end Clean

/-- In place of a control character others are written. -/
theorem clean_escapeChar (c : Char) : Clean (escapeChar c) := by
  have hhex : ∀ n < 16, isClean (hexDigit n) = true := by decide
  rw [escapeChar]
  split_ifs with _ _ _ _ _ _ _ hlow
  iterate 7 exact .cons (by decide) (.cons (by decide) .nil)
  · exact .cons (by decide) (.cons (by decide) (.cons (by decide) (.cons (by decide)
      (.cons (hhex _ (by omega)) (.cons (hhex _ (by omega)) .nil)))))
  · refine .cons ?_ .nil
    rw [isClean, Bool.or_eq_true, decide_eq_true_eq]
    exact .inr (Nat.le_of_not_lt hlow)

theorem clean_quote (s : List Char) : Clean (quote s) := by
  refine .cons (by decide) (.append (fun c hc ↦ ?_) (.cons (by decide) .nil))
  obtain ⟨d, -, hc⟩ := List.mem_flatMap.mp hc
  exact clean_escapeChar d c hc

/-- A double, named or not, has no control characters. -/
theorem clean_showShortest (x : Float) : Clean (showShortest specialNames x) := by
  by_cases hx : x.isFinite = true
  · exact .of_numeral fun _ ↦ mem_showShortest hx
  · obtain h | ⟨negative, h⟩ := showShortest_of_not_isFinite specialNames hx
    · rw [h]
      exact .of_all (by decide)
    · rw [h]
      cases negative <;> exact .of_all (by decide)

mutual

/-- No value is rendered with control characters other than line feeds. -/
theorem clean_render (l : Layout) (level : Nat) : ∀ j : Json, Clean (render l level j)
  | null => .of_all (s := ['n', 'u', 'l', 'l']) (by decide)
  | bool true => .of_all (s := ['t', 'r', 'u', 'e']) (by decide)
  | bool false => .of_all (s := ['f', 'a', 'l', 's', 'e']) (by decide)
  | int n => .of_numeral fun _ ↦ mem_numeralChars_of_mem_signedDigits
  | double x => clean_showShortest x
  | str s => clean_quote s
  | arr items => .enclose l level (.cons (by decide) .nil) (.cons (by decide) .nil)
      (clean_renderItems l _ items)
  | obj fields => .enclose l level (.cons (by decide) .nil) (.cons (by decide) .nil)
      (clean_renderFields l _ fields)

theorem clean_renderItems (l : Layout) (level : Nat) : ∀ js : List Json,
    ∀ s ∈ renderItems l level js, Clean s
  | [], _, hs => absurd hs List.not_mem_nil
  | j :: js, s, hs => (List.mem_cons.mp hs).elim (fun hs ↦ hs ▸ clean_render l level j)
    (clean_renderItems l level js s)

theorem clean_renderFields (l : Layout) (level : Nat) : ∀ fs : List (String × Json),
    ∀ s ∈ renderFields l level fs, Clean s
  | [], _, hs => absurd hs List.not_mem_nil
  | (k, j) :: fs, s, hs => (List.mem_cons.mp hs).elim
    (fun hs ↦ hs ▸ ((clean_quote k.toList).append (.colon l)).append (clean_render l level j))
    (clean_renderFields l level fs s)

end

end TextScore.Json
