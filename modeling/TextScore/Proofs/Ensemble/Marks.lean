import TextScore.Ensemble.Collect
import TextScore.Proofs.Noted
import TextScore.Proofs.Reports

/-!
# What lines say about the ensemble

Which declarations a text holds, and where its groups begin and end, can be read off its lines,
whatever the ensemble is when they are met.

As with the body, reading mixes finding out what a line says and changing what is known.  Here what
a line says are its *marks*: a group begins, a group ends, an instrument is declared.  The marks of
a text are a list that depends on the text alone, with the meta blocks as the only state, and
collecting is a fold over it.  The laws about ensembles are then about lists of marks, and
`Collecting.induct` is the induction they share.

## What is here

* `MetaBlock.after`, `MetaBlock.behind` — whether a meta block is open.
* `Declaration.ofLines` — the declarations of a text.
* `Mark`, `Mark.ofLines` — declarations, and where groups begin and end.
* `Collecting.mark` — one mark more.
* `Collecting.foldlM_readLine` — reading lines is reading their marks.
* `Collecting.induct` — what holds of everything that is collected.
-/

set_option autoImplicit false

namespace TextScore

open Text

/-! ## Meta blocks -/

/-- Whether a meta block is open behind a line, without blanks around it. -/
def MetaBlock.after (inMeta : Bool) (text : List Char) : Bool :=
  if inMeta then !closes text else opens text

/-- Whether a meta block is open behind some lines. -/
def MetaBlock.behind (ls : List (Nat × List Char)) : Bool :=
  ls.foldl (fun inMeta l ↦ after inMeta (trim l.2)) false

theorem MetaBlock.behind_concat (ls : List (Nat × List Char)) (l : Nat × List Char) :
    behind (ls ++ [l]) = after (behind ls) (trim l.2) := by
  rw [behind, List.foldl_append]
  rfl

/-! ## The declarations of a text

A declaration that cannot be read is none, and what is left of it leaves no trace. -/

namespace Declaration

/-- The name on staff lines. -/
def key (d : Declaration) : String := String.ofList d.id

/-- The name that is shown. -/
def shownName (d : Declaration) : String :=
  String.ofList (if d.displayName.isEmpty then d.id else d.displayName)

/-- The text without the closing brace at its end. -/
def withoutBrace (text : List Char) : List Char :=
  if text.getLast? == some '}' then trim text.dropLast else text

/-- The declarations of a text; what cannot be read declares nothing. -/
def inText (text : List Char) : List Declaration :=
  (splitDeclarations (withoutBrace text)).filterMap read?

/-- The declarations on a line without blanks around it: those behind the brace of a group header,
or those of a line that starts with one. -/
def onLine (text : List Char) : List Declaration :=
  match Heading.read? text with
  | some h => inText h.declarations
  | none => if startsDeclaration text then inText text else []

/-- The declarations of some lines; in a meta block, and on the line that opens it, there are
none. -/
def ofLines (ls : List (Nat × List Char)) : List Declaration :=
  (withPast [] ls).flatMap fun x ↦
    if MetaBlock.behind x.1 || MetaBlock.opens (trim x.2.2) then [] else onLine (trim x.2.2)

end Declaration

/-! ## The marks of a text

A closing brace at the end of a line is a mark of its own, behind the declarations on the line; on a
line of any other kind it is nothing. -/

/-- What a line says about groups and instruments. -/
inductive Mark
  /-- The group of a name begins. -/
  | opened (name : String)
  /-- A named group ends. -/
  | closed
  /-- An instrument is declared. -/
  | declared (d : Declaration)
  deriving DecidableEq, Repr

namespace Mark

/-- The declaration that a mark is. -/
def declaration? : Mark → Option Declaration
  | declared d => some d
  | _ => none

theorem filterMap_append_singleton (ms : List Mark) (m : Mark) :
    (ms ++ [m]).filterMap declaration? = ms.filterMap declaration? ++ m.declaration?.toList := by
  rw [List.filterMap_append]
  cases m <;> rfl

/-- The marks of a text: its declarations, and the end of the group if a closing brace stands behind
them. -/
def inText (text : List Char) : List Mark :=
  (Declaration.inText text).map declared ++ if text.getLast? == some '}' then [closed] else []

/-- The marks on a line without blanks around it: a group header with what stands behind its brace,
a closing brace, or declarations. -/
def onLine (text : List Char) : List Mark :=
  match Heading.read? text with
  | some h => opened (String.ofList h.name) :: inText h.declarations
  | none => if text = ['}'] ∨ startsDeclaration text then inText text else []

/-- The marks of some lines; in a meta block, and on the line that opens it, there are none. -/
def ofLines (ls : List (Nat × List Char)) : List Mark :=
  (withPast [] ls).flatMap fun x ↦
    if MetaBlock.behind x.1 || MetaBlock.opens (trim x.2.2) then [] else onLine (trim x.2.2)

theorem ofLines_append_singleton (ls : List (Nat × List Char)) (l : Nat × List Char) :
    ofLines (ls ++ [l]) = ofLines ls ++
      if MetaBlock.behind ls || MetaBlock.opens (trim l.2) then [] else onLine (trim l.2) := by
  rw [ofLines, ofLines, withPast_append, List.flatMap_append, List.nil_append]
  exact congrArg _ (List.append_nil _)

theorem filterMap_inText (text : List Char) :
    (inText text).filterMap declaration? = Declaration.inText text := by
  have hbrace :
      (if text.getLast? == some '}' then [closed] else []).filterMap declaration? = [] := by
    split <;> rfl
  rw [inText, List.filterMap_append, List.filterMap_map, hbrace, List.append_nil]
  exact List.filterMap_some

theorem filterMap_onLine (text : List Char) :
    (onLine text).filterMap declaration? = Declaration.onLine text := by
  rw [onLine, Declaration.onLine]
  cases Heading.read? text with
  | some h => exact filterMap_inText h.declarations
  | none =>
    dsimp only
    by_cases hbrace : text = ['}']
    · rw [hbrace]
      decide +kernel
    · simp only [hbrace, false_or]
      split
      · exact filterMap_inText text
      · rfl

/-- The declarations of a text are among its marks. -/
theorem filterMap_ofLines (ls : List (Nat × List Char)) :
    (ofLines ls).filterMap declaration? = Declaration.ofLines ls := by
  rw [ofLines, Declaration.ofLines, List.filterMap_flatMap]
  congr 1
  funext x
  split
  · rfl
  · exact filterMap_onLine _

end Mark

/-! ## Reading the marks

Two things are left out on the way from lines to marks: whether a meta block is open, which marks do
not depend on, and the notes. -/

namespace Collecting

theorem appends_declare (line : Nat) (c : Collecting) (text : List Char) :
    (declare line c text).Appends := by
  rw [declare]
  cases Declaration.read? text with
  | none => exact .pure _
  | some d =>
    refine .bind (.atLine _ _) fun i ↦ ?_
    dsimp only
    split
    · exact .bind (.note _) fun _ ↦ .bind (.note _) fun _ ↦ .pure _
    · exact .bind (.note _) fun _ ↦ .pure _

theorem appends_declareAll (line : Nat) (c : Collecting) (text : List Char) :
    (declareAll line c text).Appends :=
  .bind (.foldlM (appends_declare line) _ _) fun _ ↦ .pure _

theorem appends_readLine (c : Collecting) (l : Nat × List Char) : (readLine c l).Appends := by
  rw [readLine, step]
  dsimp only
  split
  · exact .pure _
  split
  · exact .pure _
  split
  · exact .pure _
  split
  · exact .bind (.note _) fun _ ↦ appends_declareAll _ _ _
  split
  · exact appends_declareAll _ _ _
  · exact .pure _

/-- What the declaration of a text yields. -/
theorem declare_value (line : Nat) (c : Collecting) (text : List Char) :
    (declare line c text).value =
      match Declaration.read? text with
      | none => .ok c
      | some d => d.instrument.value.map c.add := by
  rw [declare]
  cases Declaration.read? text with
  | none => rfl
  | some d =>
    dsimp only
    rw [Noted.value_bind fun i ↦ by
      split
      · exact .bind (.note _) fun _ ↦ .bind (.note _) fun _ ↦ .pure _
      · exact .bind (.note _) fun _ ↦ .pure _, Noted.value_atLine]
    cases d.instrument.value with
    | error f => rfl
    | ok i =>
      rw [ok_bind]
      split <;> rfl

/-- One mark more. -/
def mark (c : Collecting) : Mark → Except Fault Collecting
  | .opened name => .ok (c.reopen name)
  | .closed => .ok (if c.heading?.isSome then c.reopen none else c)
  | .declared d => d.instrument.value.map c.add

/-- Whether a meta block is open does not matter to marks. -/
theorem mark_inMeta (c : Collecting) (b : Bool) (m : Mark) :
    { c with inMeta := b }.mark m = (c.mark m).map fun c ↦ { c with inMeta := b } := by
  cases m with
  | opened name => rfl
  | closed =>
    rw [mark, mark]
    dsimp only
    split <;> rfl
  | declared d =>
    rw [mark, mark]
    cases d.instrument.value <;> rfl

theorem foldlM_mark_inMeta (c : Collecting) (b : Bool) (ms : List Mark) :
    ms.foldlM mark { c with inMeta := b } =
      (ms.foldlM mark c).map fun c ↦ { c with inMeta := b } := by
  induction ms generalizing c with
  | nil => rfl
  | cons m ms ih =>
    rw [List.foldlM_cons, List.foldlM_cons, mark_inMeta]
    cases c.mark m with
    | error f => rfl
    | ok c => exact ih c

theorem declareAll_value (line : Nat) (c : Collecting) (text : List Char) :
    (declareAll line c text).value = (Mark.inText text).foldlM mark c := by
  have hdeclarations : (splitDeclarations (Declaration.withoutBrace text)).foldlM
      (fun c s ↦ (declare line c s).value) c =
        ((Declaration.inText text).map Mark.declared).foldlM mark c := by
    rw [Declaration.inText, List.foldlM_map, List.foldlM_filterMap]
    congr 1
    funext c s
    rw [declare_value]
    cases Declaration.read? s <;> rfl
  rw [declareAll, Noted.value_bind fun _ ↦ .pure _, Noted.value_foldlM (appends_declare line),
    Mark.inText, List.foldlM_append, ← hdeclarations]
  refine congrArg _ (funext fun c ↦ ?_)
  cases text.getLast? == some '}' <;> rfl

/-- A line is its marks. -/
theorem readLine_marks (c : Collecting) (l : Nat × List Char) :
    (c.readLine l).value = (if c.inMeta || MetaBlock.opens (trim l.2) then []
      else Mark.onLine (trim l.2)).foldlM mark { c with
        inMeta := MetaBlock.after c.inMeta (trim l.2) } := by
  obtain ⟨e, heading?, members, inMeta⟩ := c
  rw [readLine]
  by_cases hempty : (trim l.2).isEmpty = true
  · rw [if_pos hempty, List.isEmpty_iff.mp hempty]
    cases inMeta <;> rfl
  -- a line in a meta block, or one that opens one, has no marks
  rw [if_neg hempty, step, MetaBlock.after]
  cases inMeta with
  | true => rfl
  | false =>
    rw [if_neg Bool.false_ne_true, if_neg Bool.false_ne_true, Bool.false_or]
    cases hopens : MetaBlock.opens (trim l.2) with
    | true => rfl
    | false =>
      rw [if_neg Bool.false_ne_true, if_neg Bool.false_ne_true, Mark.onLine]
      cases Heading.read? (trim l.2) with
      | some h =>
        dsimp only
        rw [Noted.value_bind fun _ ↦ appends_declareAll _ _ _, List.foldlM_cons]
        exact declareAll_value _ _ _
      | none =>
        dsimp only
        split
        · exact declareAll_value _ _ _
        · rfl

/-- Lines are their marks. -/
theorem foldlM_readLine (defaults : Defaults) (ls : List (Nat × List Char)) :
    (ls.foldlM readLine { ensemble := { defaults } }).value =
      ((Mark.ofLines ls).foldlM mark { ensemble := { defaults } }).map fun c ↦
        { c with inMeta := MetaBlock.behind ls } := by
  rw [Noted.value_foldlM appends_readLine]
  induction ls using List.reverseRecOn with
  | nil => rfl
  | append_singleton ls l ih =>
    rw [List.foldlM_append, ih, Mark.ofLines_append_singleton, List.foldlM_append,
      MetaBlock.behind_concat]
    cases (Mark.ofLines ls).foldlM mark { ensemble := { defaults } } with
    | error f => rfl
    | ok c =>
      rw [Except.map, ok_bind, ok_bind, List.foldlM_cons]
      simp only [List.foldlM_nil, bind_pure]
      rw [readLine_marks]
      exact foldlM_mark_inMeta c _ _

/-- What opening and closing groups keep, and one instrument more, holds of everything that is
collected. -/
theorem induct {P : Collecting → Prop} (hmeta : ∀ c b, P c → P { c with inMeta := b })
    (hreopen : ∀ c heading?, P c → P (c.reopen heading?))
    (hadd : ∀ c (d : Declaration) i, P c → d.instrument.value = .ok i → P (c.add i))
    {ls : List (Nat × List Char)} {c c' : Collecting} (hc : P c)
    (h : (ls.foldlM readLine c).value = .ok c') : P c' := by
  have hmark {c c' : Collecting} {m : Mark} (hc : P c) (h : c.mark m = .ok c') : P c' := by
    cases m with
    | opened name =>
      cases h
      exact hreopen c name hc
    | closed =>
      cases h
      split
      · exact hreopen c none hc
      · exact hc
    | declared d =>
      obtain ⟨i, hi, rfl⟩ := map_eq_ok h
      exact hadd c d i hc hi
  rw [Noted.value_foldlM appends_readLine] at h
  refine foldlM_invariant (P := fun _ c ↦ P c) (fun _ c l c' hc h ↦ ?_) hc h
  rw [readLine_marks] at h
  exact foldlM_invariant (P := fun _ c ↦ P c) (fun _ _ _ _ hc h ↦ hmark hc h) (hmeta c _ hc) h

end Collecting

end TextScore
