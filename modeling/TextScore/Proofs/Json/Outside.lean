import Mathlib.Data.List.Infix
import TextScore.Json.Basic
import TextScore.Proofs.Number.Layout

/-!
# What stands outside the strings of JSON text

Standard JSON has numbers, but no names for the doubles that are none.  Whether a text has such a
name can only be seen outside of its string literals, as inside of them anything may stand: an
instrument may be called `NaN`.

So the text has to be gone through from the front, as a reader does, who knows at every character
whether it is inside of a literal.  A quote opens a literal and closes it, but not behind a
backslash, and not every backslash makes an escape of the character behind it.  What is left is
again a text that is rendered: that of the value with all its texts emptied.  Of that text, which
has nothing but marks, numbers and names in it, it is clear which names appear.

To say that something is done to a text piece by piece, it is said what is made of a piece in front
of any other text (`Becomes`).  This notion goes through concatenation, so that it can be shown of a
rendered value by induction on the value; `Squeezed` uses it for another function.

## What is here

* `Json.outside` — a text without what stands inside its string literals.
* `Json.Becomes` — a text is gone through piece by piece.
* `Json.bare` — a value with all its texts emptied.
* `Json.outside_render` — outside of its literals a rendered value is the rendered bare value.
* `Json.isStandard_render` — the names appear if and only if some double is not finite.
-/

set_option autoImplicit false

namespace TextScore

open Number

namespace Json

/-! ## Outside of literals

There are three places for a reader, and what a character does at each of them. -/

/-- Where a reader of JSON text is. -/
inductive Place
  /-- Outside of literals. -/
  | outside
  /-- Inside a literal. -/
  | inside
  /-- Inside a literal, behind a backslash. -/
  | escaped
  deriving DecidableEq, Repr

/-- Where a reader is behind a character. -/
def Place.next : Place → Char → Place
  | outside, c => if c = '"' then inside else outside
  | inside, c => if c = '"' then outside else if c = '\\' then escaped else inside
  | escaped, _ => inside

/-- What a reader at a place keeps of a text: what is outside of literals, and the quotes around
them. -/
def keep (p : Place) : List Char → List Char
  | [] => []
  | c :: s =>
    if p = .outside ∨ p.next c = .outside then c :: keep (p.next c) s else keep (p.next c) s

/-- A text without what stands inside its string literals. -/
def outside (s : List Char) : List Char := keep .outside s

/-- No name of a double that is not finite stands outside of the literals. -/
def IsStandard (s : List Char) : Prop :=
  ¬"Infinity".toList <:+: outside s ∧ ¬"NaN".toList <:+: outside s

/-! ## Texts that are gone through piece by piece

`Becomes f` is the notion for any function on texts, and `Leaves` is the case of `outside`. -/

/-- Of a text, in front of any other, `f` makes `t`. -/
def Becomes (f : List Char → List Char) (s t : List Char) : Prop := ∀ r, f (s ++ r) = t ++ f r

namespace Becomes

variable {f : List Char → List Char} {s t s' t' : List Char}

theorem nil : Becomes f [] [] := fun _ ↦ rfl

theorem append (h : Becomes f s t) (h' : Becomes f s' t') : Becomes f (s ++ s') (t ++ t') :=
  fun r ↦ by rw [List.append_assoc, h, h', List.append_assoc]

theorem of_forall (h : ∀ c ∈ s, Becomes f [c] [c]) : Becomes f s s := by
  induction s with
  | nil => exact nil
  | cons c s ih =>
    rw [List.forall_mem_cons] at h
    exact h.1.append (ih h.2)

theorem intercalate {sep sep' : List Char} (hsep : Becomes f sep sep') {ss ts : List (List Char)}
    (h : List.Forall₂ (Becomes f) ss ts) :
    Becomes f (sep.intercalate ss) (sep'.intercalate ts) := by
  induction h with
  | nil => exact nil
  | @cons s t ss ts hs hss ih =>
    cases hss with
    | nil => rwa [List.intercalate_singleton, List.intercalate_singleton]
    | cons hs' hss' =>
      rw [List.intercalate_cons_cons, List.intercalate_cons_cons]
      exact append (append hs hsep) ih

/-- Items between two marks. -/
theorem enclose {l l' : Layout} {level level' : Nat} {opening closing : Char}
    (hopening : Becomes f [opening] [opening]) (hclosing : Becomes f [closing] [closing])
    (hcomma : Becomes f [','] [','])
    (hinner : Becomes f (l.newline (level + 1)) (l'.newline (level' + 1)))
    (houter : Becomes f (l.newline level) (l'.newline level')) {ss ts : List (List Char)}
    (h : List.Forall₂ (Becomes f) ss ts) :
    Becomes f (l.enclose level opening closing ss) (l'.enclose level' opening closing ts) := by
  have hbody := intercalate (hcomma.append hinner) h
  cases h with
  | nil => exact hopening.append hclosing
  | cons hs hss => exact hopening.append (((hinner.append hbody).append houter).append hclosing)

end Becomes

/-- A text closes its literals, and `t` stands outside of them. -/
def Leaves (s t : List Char) : Prop := ∀ r, outside (s ++ r) = t ++ outside r

namespace Leaves

theorem append {s t s' t' : List Char} (h : Leaves s t) (h' : Leaves s' t') :
    Leaves (s ++ s') (t ++ t') :=
  Becomes.append h h'

theorem singleton {c : Char} (h : c ≠ '"') : Leaves [c] [c] := fun r ↦ by
  show keep .outside (c :: r) = c :: keep .outside r
  have hnext : Place.outside.next c = .outside := if_neg h
  rw [keep, if_pos (.inl rfl), hnext]

/-- A text without quotes has no literals. -/
theorem of_not_mem {s : List Char} (h : '"' ∉ s) : Leaves s s :=
  Becomes.of_forall fun _ hc ↦ singleton fun heq ↦ h (heq ▸ hc)

end Leaves

/-! ## Literals

Behind the backslash of an escape stands one character, which may be a quote or a backslash, and
then digits, which may not. -/

/-- A character stands for itself, or a backslash and another character stand for it, and perhaps
digits behind them. -/
theorem escapeChar_cases (c : Char) : (escapeChar c = [c] ∧ c ≠ '"' ∧ c ≠ '\\') ∨
    ∃ d ds, escapeChar c = '\\' :: d :: ds ∧ ∀ e ∈ ds, e ≠ '"' ∧ e ≠ '\\' := by
  have hnone : ∀ e ∈ ([] : List Char), e ≠ '"' ∧ e ≠ '\\' := fun e he ↦ absurd he List.not_mem_nil
  have hhex : ∀ n < 16, hexDigit n ≠ '"' ∧ hexDigit n ≠ '\\' := by decide
  rw [escapeChar]
  split_ifs with hquote hslash _ _ _ _ _ hlow
  iterate 7 exact .inr ⟨_, [], rfl, hnone⟩
  · refine .inr ⟨_, _, rfl, ?_⟩
    simp only [List.forall_mem_cons]
    exact ⟨by decide, by decide, hhex _ (by omega), hhex _ (by omega), hnone⟩
  · exact .inl ⟨rfl, hquote, hslash⟩

/-- Inside a literal, other characters than quotes and backslashes do not end it. -/
theorem Place.next_inside {c : Char} (h : c ≠ '"' ∧ c ≠ '\\') : Place.inside.next c = .inside := by
  rw [next, if_neg h.1, if_neg h.2]

/-- Inside a literal an escaped character leaves nothing and does not end it. -/
theorem keep_escapeChar (c : Char) (r : List Char) :
    keep .inside (escapeChar c ++ r) = keep .inside r := by
  have hplain {d : Char} (hd : d ≠ '"' ∧ d ≠ '\\') (r : List Char) :
      keep .inside (d :: r) = keep .inside r := by
    rw [keep, Place.next_inside hd, if_neg (by decide)]
  obtain ⟨h, hc⟩ | ⟨d, ds, h, hds⟩ := escapeChar_cases c
  · rw [h]
    exact hplain hc r
  · rw [h]
    show keep .inside (ds ++ r) = keep .inside r
    clear h
    induction ds with
    | nil => rfl
    | cons e ds ih =>
      rw [List.forall_mem_cons] at hds
      rw [List.cons_append, hplain hds.1, ih hds.2]

/-- Of a literal its quotes are left. -/
theorem leaves_quote (s : List Char) : Leaves (quote s) (quote []) := fun r ↦ by
  have hbody (r : List Char) : keep .inside (s.flatMap escapeChar ++ r) = keep .inside r := by
    induction s with
    | nil => rfl
    | cons c s ih => rw [List.flatMap_cons, List.append_assoc, keep_escapeChar, ih]
  show '"' :: keep .inside ((s.flatMap escapeChar ++ ['"']) ++ r) = '"' :: '"' :: outside r
  rw [List.append_assoc, hbody]
  rfl

/-! ## Values -/

mutual

/-- A value with all its texts emptied. -/
def bare : Json → Json
  | str _ => str []
  | arr items => arr (bareItems items)
  | obj fields => obj (bareFields fields)
  | null => null
  | bool b => bool b
  | int n => int n
  | double x => double x

/-- Items with all their texts emptied. -/
def bareItems : List Json → List Json
  | [] => []
  | j :: js => bare j :: bareItems js

/-- Fields with all their texts emptied, the names among them. -/
def bareFields : List (String × Json) → List (String × Json)
  | [] => []
  | (_, j) :: fs => ("", bare j) :: bareFields fs

end

mutual

/-- The doubles in a value. -/
def doubles : Json → List Float
  | double x => [x]
  | arr items => doublesOfItems items
  | obj fields => doublesOfFields fields
  | _ => []

/-- The doubles in items. -/
def doublesOfItems : List Json → List Float
  | [] => []
  | j :: js => doubles j ++ doublesOfItems js

/-- The doubles in fields. -/
def doublesOfFields : List (String × Json) → List Float
  | [] => []
  | (_, j) :: fs => doubles j ++ doublesOfFields fs

end

theorem doubles_arr (items : List Json) : (arr items).doubles = items.flatMap doubles := by
  rw [doubles]
  induction items with
  | nil => rfl
  | cons j js ih => rw [doublesOfItems, ih, List.flatMap_cons]

theorem doubles_obj (fields : List (String × Json)) :
    (obj fields).doubles = fields.flatMap fun f ↦ f.2.doubles := by
  rw [doubles]
  induction fields with
  | nil => rfl
  | cons f fs ih => rw [doublesOfFields, ih, List.flatMap_cons]

/-! ## Rendered values -/

theorem Layout.leaves_newline (l : Layout) (level : Nat) :
    Leaves (l.newline level) (l.newline level) := by
  refine .of_not_mem fun h ↦ ?_
  rw [newline] at h
  split at h
  · cases h
  · obtain h | h := List.mem_cons.mp h
    · exact absurd h (by decide)
    · exact absurd (List.eq_of_mem_replicate h) (by decide)

theorem Layout.leaves_colon (l : Layout) : Leaves l.colon l.colon := by
  rw [colon]
  split <;> exact .of_not_mem (by decide)

theorem Layout.leaves_enclose (l : Layout) (level : Nat) {opening closing : Char}
    (hopening : opening ≠ '"') (hclosing : closing ≠ '"') {ss ts : List (List Char)}
    (h : List.Forall₂ Leaves ss ts) :
    Leaves (l.enclose level opening closing ss) (l.enclose level opening closing ts) :=
  Becomes.enclose (Leaves.singleton hopening) (Leaves.singleton hclosing)
    (Leaves.singleton (by decide)) (l.leaves_newline _) (l.leaves_newline _) h

theorem leaves_signedDigits (n : Int) : Leaves (signedDigits n) (signedDigits n) :=
  .of_not_mem fun h ↦ absurd (mem_numeralChars_of_mem_signedDigits h) (by decide)

/-- A double, named or not, has no quotes. -/
theorem leaves_showShortest (x : Float) :
    Leaves (showShortest specialNames x) (showShortest specialNames x) := by
  have hnumeral : '"' ∉ numeralChars := by decide
  by_cases hx : x.isFinite = true
  · exact .of_not_mem fun h ↦ hnumeral (mem_showShortest hx h)
  · obtain h | ⟨negative, h⟩ := showShortest_of_not_isFinite specialNames hx <;> rw [h]
    · exact .of_not_mem (by decide)
    · cases negative <;> exact .of_not_mem (by decide)

mutual

/-- A rendered value closes its literals, and the rendered bare value stands outside of them. -/
theorem leaves_render (l : Layout) (level : Nat) :
    ∀ j : Json, Leaves (render l level j) (render l level (bare j))
  | null => .of_not_mem (show '"' ∉ ['n', 'u', 'l', 'l'] by decide)
  | bool true => .of_not_mem (show '"' ∉ ['t', 'r', 'u', 'e'] by decide)
  | bool false => .of_not_mem (show '"' ∉ ['f', 'a', 'l', 's', 'e'] by decide)
  | int n => leaves_signedDigits n
  | double x => leaves_showShortest x
  | str s => leaves_quote s
  | arr items => l.leaves_enclose level (by decide) (by decide) (leaves_renderItems l _ items)
  | obj fields => l.leaves_enclose level (by decide) (by decide) (leaves_renderFields l _ fields)

theorem leaves_renderItems (l : Layout) (level : Nat) : ∀ js : List Json,
    List.Forall₂ Leaves (renderItems l level js) (renderItems l level (bareItems js))
  | [] => .nil
  | j :: js => .cons (leaves_render l level j) (leaves_renderItems l level js)

theorem leaves_renderFields (l : Layout) (level : Nat) : ∀ fs : List (String × Json),
    List.Forall₂ Leaves (renderFields l level fs) (renderFields l level (bareFields fs))
  | [] => .nil
  | (k, j) :: fs =>
    .cons (((leaves_quote k.toList).append l.leaves_colon).append (leaves_render l level j))
      (leaves_renderFields l level fs)

end

/-- Outside of its literals a rendered value is the rendered bare value. -/
theorem outside_render (l : Layout) (level : Nat) (j : Json) :
    outside (render l level j) = render l level (bare j) := by
  have h := leaves_render l level j []
  rwa [List.append_nil, show outside [] = [] from rfl, List.append_nil] at h

/-! ## The names of doubles

A double that is not finite is in the text of every value that it is a part of.  Where all are
finite, no piece of the text has a capital letter, so there is none for a name to start with. -/

theorem infix_intercalate (sep : List Char) {s : List Char} {ss : List (List Char)} (h : s ∈ ss) :
    s <:+: sep.intercalate ss := by
  induction ss with
  | nil => cases h
  | cons s' ss ih =>
    cases ss with
    | nil =>
      rw [List.intercalate_singleton, List.mem_singleton.mp h]
    | cons s'' ss =>
      rw [List.intercalate_cons_cons]
      rcases List.mem_cons.mp h with rfl | h
      · rw [List.append_assoc]
        exact (List.prefix_append s _).isInfix
      · exact (ih h).trans (List.suffix_append _ _).isInfix

/-- Every item is in the text of all items. -/
theorem Layout.infix_enclose (l : Layout) (level : Nat) (opening closing : Char) {s : List Char}
    {ss : List (List Char)} (h : s ∈ ss) : s <:+: l.enclose level opening closing ss := by
  have hbody := infix_intercalate (',' :: l.newline (level + 1)) h
  cases ss with
  | nil => cases h
  | cons s' ss =>
    refine hbody.trans ?_
    show _ <:+: opening :: (l.newline (level + 1) ++ _ ++ l.newline level ++ [closing])
    rw [List.append_assoc, List.append_assoc]
    exact (List.prefix_append _ _).isInfix.trans
      ((List.suffix_append _ _).trans (List.suffix_cons _ _)).isInfix

mutual

/-- Every double of a value is written outside of its literals. -/
theorem infix_render {x : Float} (l : Layout) (level : Nat) : ∀ j : Json, x ∈ doubles j →
    showShortest specialNames x <:+: render l level (bare j)
  | double y, h => by
    rw [List.mem_singleton.mp h]
    exact List.infix_refl _
  | arr items, h => by
    obtain ⟨s, hs, hx⟩ := infix_renderItems l (level + 1) items h
    exact hx.trans (l.infix_enclose level _ _ hs)
  | obj fields, h => by
    obtain ⟨s, hs, hx⟩ := infix_renderFields l (level + 1) fields h
    exact hx.trans (l.infix_enclose level _ _ hs)

theorem infix_renderItems {x : Float} (l : Layout) (level : Nat) : ∀ js : List Json,
    x ∈ doublesOfItems js →
      ∃ s ∈ renderItems l level (bareItems js), showShortest specialNames x <:+: s
  | j :: js, h => (List.mem_append.mp h).elim
    (fun h ↦ ⟨_, List.mem_cons_self, infix_render l level j h⟩)
    fun h ↦ (infix_renderItems l level js h).imp fun _ hs ↦ ⟨List.mem_cons_of_mem _ hs.1, hs.2⟩

theorem infix_renderFields {x : Float} (l : Layout) (level : Nat) : ∀ fs : List (String × Json),
    x ∈ doublesOfFields fs →
      ∃ s ∈ renderFields l level (bareFields fs), showShortest specialNames x <:+: s
  | (_, j) :: fs, h => (List.mem_append.mp h).elim
    (fun h ↦ ⟨_, List.mem_cons_self,
      (infix_render l level j h).trans (List.suffix_append _ _).isInfix⟩)
    fun h ↦ (infix_renderFields l level fs h).imp fun _ hs ↦ ⟨List.mem_cons_of_mem _ hs.1, hs.2⟩

end

/-- The text has no capital letter with which a name of a double starts. -/
def Nameless (s : List Char) : Prop := 'I' ∉ s ∧ 'N' ∉ s

namespace Nameless

theorem append {s t : List Char} (hs : Nameless s) (ht : Nameless t) : Nameless (s ++ t) :=
  ⟨fun h ↦ (List.mem_append.mp h).elim hs.1 ht.1, fun h ↦ (List.mem_append.mp h).elim hs.2 ht.2⟩

theorem of_numeral {s : List Char} (h : ∀ c ∈ s, c ∈ numeralChars) : Nameless s :=
  ⟨fun hc ↦ absurd (h _ hc) (by decide), fun hc ↦ absurd (h _ hc) (by decide)⟩

theorem newline (l : Layout) (level : Nat) : Nameless (l.newline level) := by
  rw [Layout.newline]
  split
  · exact ⟨List.not_mem_nil, List.not_mem_nil⟩
  · refine .append (s := ['\n']) ⟨by decide, by decide⟩ ⟨fun h ↦ ?_, fun h ↦ ?_⟩
    all_goals exact absurd (List.eq_of_mem_replicate h) (by decide)

theorem intercalate {sep : List Char} (hsep : Nameless sep) {ss : List (List Char)}
    (h : ∀ s ∈ ss, Nameless s) : Nameless (sep.intercalate ss) := by
  induction ss with
  | nil => exact ⟨List.not_mem_nil, List.not_mem_nil⟩
  | cons s ss ih =>
    have hs := h s List.mem_cons_self
    have hss := ih fun t ht ↦ h t (List.mem_cons_of_mem s ht)
    cases ss with
    | nil => rwa [List.intercalate_singleton]
    | cons t ss =>
      rw [List.intercalate_cons_cons]
      exact (hs.append hsep).append hss

theorem enclose (l : Layout) (level : Nat) {opening closing : Char} (hopening : Nameless [opening])
    (hclosing : Nameless [closing]) {ss : List (List Char)} (h : ∀ s ∈ ss, Nameless s) :
    Nameless (l.enclose level opening closing ss) := by
  have hsep : Nameless (',' :: l.newline (level + 1)) :=
    append (s := [',']) ⟨by decide, by decide⟩ (newline l _)
  have hbody := intercalate hsep h
  cases ss with
  | nil => exact hopening.append hclosing
  | cons s ss =>
    exact hopening.append ((((newline l _).append hbody).append (newline l _)).append hclosing)

end Nameless

mutual

/-- If all doubles are finite, no name starts outside of literals. -/
theorem nameless_render (l : Layout) (level : Nat) : ∀ j : Json,
    (∀ x ∈ doubles j, x.isFinite = true) → Nameless (render l level (bare j))
  | null, _ => show Nameless ['n', 'u', 'l', 'l'] from ⟨by decide, by decide⟩
  | bool true, _ => show Nameless ['t', 'r', 'u', 'e'] from ⟨by decide, by decide⟩
  | bool false, _ => show Nameless ['f', 'a', 'l', 's', 'e'] from ⟨by decide, by decide⟩
  | int n, _ => .of_numeral fun _ ↦ mem_numeralChars_of_mem_signedDigits
  | double x, h => .of_numeral fun _ ↦ mem_showShortest (h x (List.mem_singleton_self x))
  | str s, _ => show Nameless ['"', '"'] from ⟨by decide, by decide⟩
  | arr items, h =>
    .enclose l level ⟨by decide, by decide⟩ ⟨by decide, by decide⟩
      (nameless_renderItems l _ items h)
  | obj fields, h =>
    .enclose l level ⟨by decide, by decide⟩ ⟨by decide, by decide⟩
      (nameless_renderFields l _ fields h)

theorem nameless_renderItems (l : Layout) (level : Nat) : ∀ js : List Json,
    (∀ x ∈ doublesOfItems js, x.isFinite = true) →
      ∀ s ∈ renderItems l level (bareItems js), Nameless s
  | [], _, _, hs => absurd hs List.not_mem_nil
  | j :: js, h, s, hs => (List.mem_cons.mp hs).elim
    (fun hs ↦ hs ▸ nameless_render l level j fun x hx ↦ h x (List.mem_append_left _ hx))
    (nameless_renderItems l level js (fun x hx ↦ h x (List.mem_append_right _ hx)) s)

theorem nameless_renderFields (l : Layout) (level : Nat) : ∀ fs : List (String × Json),
    (∀ x ∈ doublesOfFields fs, x.isFinite = true) →
      ∀ s ∈ renderFields l level (bareFields fs), Nameless s
  | [], _, _, hs => absurd hs List.not_mem_nil
  | (_, j) :: fs, h, s, hs => (List.mem_cons.mp hs).elim
    (fun hs ↦ by
      have hkey : Nameless (quote "".toList) := ⟨by decide, by decide⟩
      have hcolon : Nameless l.colon := by
        rw [Layout.colon]
        split <;> exact ⟨by decide, by decide⟩
      rw [hs]
      exact (hkey.append hcolon).append
        (nameless_render l level j fun x hx ↦ h x (List.mem_append_left _ hx)))
    (nameless_renderFields l level fs (fun x hx ↦ h x (List.mem_append_right _ hx)) s)

end

/-- **Standard JSON.**  A rendered value is standard JSON if and only if all its doubles are
finite. -/
theorem isStandard_render (l : Layout) (level : Nat) (j : Json) :
    IsStandard (render l level j) ↔ ∀ x ∈ doubles j, x.isFinite = true := by
  rw [IsStandard, outside_render]
  constructor
  · rintro ⟨hinfinity, hnan⟩ x hx
    by_contra hfinite
    have hname := infix_render l level j hx
    obtain h | ⟨negative, h⟩ := showShortest_of_not_isFinite specialNames hfinite
    · rw [h] at hname
      exact hnan hname
    · rw [h] at hname
      refine hinfinity (List.IsInfix.trans ?_ hname)
      cases negative with
      | true => exact (List.suffix_cons _ _).isInfix
      | false => exact List.infix_refl _
  · intro h
    obtain ⟨hinfinity, hnan⟩ := nameless_render l level j h
    exact ⟨fun hname ↦ hinfinity (hname.mem (by decide)), fun hname ↦ hnan (hname.mem (by decide))⟩

end Json

end TextScore
