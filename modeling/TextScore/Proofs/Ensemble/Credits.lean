import TextScore.Proofs.Ensemble.Written

/-!
# Credits within an ensemble

A meta block that names the title and the composer holds no declarations, so an ensemble can be read
as if the block were not there.  The reading takes every closing brace for the end of the block,
though, also one in a quoted name.  Then the brace that was to end the block stands alone, and if a
group is open, it is the group that ends.

The documentation lets a meta block stand among the declarations and its title be anything in
quotes.  The theorem compares the text with the block and the text without it, for all lines before
and behind.  They come to the same ensemble if the names have no closing brace, or if no group is
open that could be ended; otherwise the block is as good as a closing brace on its own.

## What is here

* `Collecting.readText` — what a line yields; its number matters to the reports only.
* `MetaBlock.credits` — the lines of the block.
* `Collecting.foldlM_credits` — they are passed over, or they are as good as a closing brace.
* `Ensemble.collect_credits` — the ensemble with the block and without it.
* `Ensemble.collect_braced` — a title with a brace takes an instrument out of its group.
-/

set_option autoImplicit false

namespace TextScore

open Text

/-! ## Lines without their numbers -/

namespace Collecting

variable {c : Collecting} {text : List Char}

/-- What one line more yields. -/
def readText (c : Collecting) (text : List Char) : Except Fault Collecting :=
  (c.readLine (0, text)).value

/-- The number of a line does not matter to what it yields. -/
theorem readLine_value (c : Collecting) (l : Nat × List Char) :
    (c.readLine l).value = c.readText l.2 := by
  rw [readText, readLine_marks, readLine_marks]

theorem foldlM_readLine_value (c : Collecting) (ls : List (Nat × List Char)) :
    (ls.foldlM readLine c).value = (ls.map Prod.snd).foldlM readText c := by
  rw [Noted.value_foldlM appends_readLine, List.foldlM_map]
  simp only [readLine_value]

/-- Within a meta block a line is looked at for a closing brace only. -/
theorem readText_of_inMeta (h : c.inMeta = true) (text : List Char) :
    c.readText text = .ok { c with inMeta := !MetaBlock.closes (trim text) } := by
  rw [readText, readLine]
  split
  case isTrue hempty =>
    rw [List.isEmpty_iff.mp hempty]
    show Except.ok c = .ok { c with inMeta := true }
    rw [← h]
  case isFalse =>
    rw [step, if_pos h]
    rfl

theorem readText_brace (h : c.inMeta = false) :
    c.readText ['}'] = .ok (if c.heading?.isSome then c.reopen none else c) :=
  (readLine_brace h).1

end Collecting

/-! ## The block

Within a block a line is looked at for a closing brace only.  So there are three cases, by the first
of the lines behind the opening one that has a closing brace. -/

namespace MetaBlock

/-- A line that names something. -/
def entry (key name : List Char) : List Char := key ++ ':' :: ' ' :: '"' :: (name ++ ['"'])

/-- A meta block with a title and a composer. -/
def credits (title composer : List Char) : List (List Char) :=
  ["meta \x7b".toList, entry "title".toList title, entry "composer".toList composer, ['}']]

variable {title composer : List Char}

theorem trim_entry {key : List Char} (hkey : (key.head?.any fun c ↦ !isBlank c) = true)
    (name : List Char) : trim (entry key name) = entry key name := by
  cases key with
  | nil => cases hkey
  | cons k key =>
    refine trim_eq_self (fun c hc ↦ ?_) fun c hc ↦ ?_
    · cases hc
      simpa using hkey
    · have hlast : entry (k :: key) name = (k :: key ++ ':' :: ' ' :: '"' :: name) ++ ['"'] := by
        simp [entry]
      rw [hlast, List.getLast?_concat] at hc
      cases hc
      decide

/-- A brace in the name counts as the end of the block. -/
theorem closes_entry {key : List Char} (hkey : '}' ∉ key) (name : List Char) :
    closes (entry key name) = name.contains '}' := by
  simp [closes, entry, hkey]

end MetaBlock

namespace Collecting

variable {c : Collecting} {title composer : List Char}

theorem readText_open (h : c.inMeta = false) :
    c.readText "meta \x7b".toList = .ok { c with inMeta := true } := by
  have htrim : trim "meta \x7b".toList = "meta \x7b".toList := rfl
  have hopens : MetaBlock.opens "meta \x7b".toList = true := rfl
  rw [readText, readLine]
  dsimp only
  rw [htrim, step, h, hopens]
  rfl

/-- Outside of meta blocks the name of the composer is no declaration. -/
theorem readText_composer (h : c.inMeta = false) :
    c.readText (MetaBlock.entry "composer".toList composer) = .ok c := by
  rw [readText, readLine]
  dsimp only
  rw [MetaBlock.trim_entry (by decide), step, h]
  rfl

/-- A meta block with credits is passed over, unless there is a closing brace in a name: then the
brace that was to end it stands alone. -/
theorem foldlM_credits (h : c.inMeta = false) :
    (MetaBlock.credits title composer).foldlM readText c =
      if '}' ∈ title ∨ '}' ∈ composer then c.readText ['}'] else .ok c := by
  have hclosed : { c with inMeta := false } = c := by rw [← h]
  have hbrace : MetaBlock.closes (trim ['}']) = true := rfl
  have htitle : MetaBlock.closes (MetaBlock.entry "title".toList title) = title.contains '}' :=
    MetaBlock.closes_entry (by decide) title
  have hcomposer :
      MetaBlock.closes (MetaBlock.entry "composer".toList composer) = composer.contains '}' :=
    MetaBlock.closes_entry (by decide) composer
  simp only [MetaBlock.credits, List.foldlM_cons, List.foldlM_nil, readText_open h, ok_bind]
  rw [readText_of_inMeta rfl, MetaBlock.trim_entry (by decide), htitle, ok_bind]
  by_cases ht : '}' ∈ title
  · -- the title ends the block, and what follows is read outside of it
    rw [List.contains_iff_mem.mpr ht, Bool.not_true, hclosed, readText_composer h, ok_bind]
    simp [ht]
  · have hopen : title.contains '}' = false := by simpa using ht
    rw [hopen, Bool.not_false, readText_of_inMeta rfl,
      MetaBlock.trim_entry (by decide), hcomposer, ok_bind]
    by_cases hm : '}' ∈ composer
    · simp [hm, hclosed]
    · simp [ht, hm, readText_of_inMeta, hbrace, hclosed]

end Collecting

/-! ## The ensemble around it

The lines behind the block may have other numbers in the text without it. -/

namespace Ensemble

theorem collect_value (defaults : Defaults) (ls : List (Nat × List Char)) :
    (collect defaults ls).value =
      ((ls.map Prod.snd).foldlM Collecting.readText { ensemble := { defaults } }).map
        Collecting.finish := by
  rw [collect, Noted.value_bind fun _ ↦ .pure _, Collecting.foldlM_readLine_value]
  rfl

/-- Lines can be replaced by others that come to the same behind the lines before them. -/
theorem collect_replace {defaults : Defaults}
    {before block after after' : List (Nat × List Char)} (block' : List (Nat × List Char))
    (hafter : after.map Prod.snd = after'.map Prod.snd)
    (hblock : ∀ c, (before.foldlM Collecting.readLine { ensemble := { defaults } }).value = .ok c →
      (block.map Prod.snd).foldlM Collecting.readText c =
        (block'.map Prod.snd).foldlM Collecting.readText c) :
    (collect defaults (before ++ block ++ after)).value =
      (collect defaults (before ++ block' ++ after')).value := by
  rw [collect_value, collect_value]
  simp only [List.map_append, List.foldlM_append, hafter]
  rw [← Collecting.foldlM_readLine_value]
  cases hc : (before.foldlM Collecting.readLine { ensemble := { defaults } }).value with
  | error f => rfl
  | ok c => simp only [ok_bind, hblock c hc]

section

variable {before block after after' : List (Nat × List Char)} {title composer : List Char}

/-- **Credits and declarations.**  An ensemble is the same with a meta block as without it, if there
is no closing brace in the names of the block or if no group is open before it.  With such a brace
the block is as good as a closing brace on its own, whatever stands before and behind. -/
theorem collect_credits (defaults : Defaults) (n : Nat) (hbefore : MetaBlock.behind before = false)
    (hblock : block.map Prod.snd = MetaBlock.credits title composer)
    (hafter : after.map Prod.snd = after'.map Prod.snd) :
    ('}' ∉ title → '}' ∉ composer →
      (collect defaults (before ++ block ++ after)).value =
        (collect defaults (before ++ after')).value) ∧
    ((∀ c, (before.foldlM Collecting.readLine { ensemble := { defaults } }).value = .ok c →
        c.heading? = none) →
      (collect defaults (before ++ block ++ after)).value =
        (collect defaults (before ++ after')).value) ∧
    ('}' ∈ title ∨ '}' ∈ composer →
      (collect defaults (before ++ block ++ after)).value =
        (collect defaults (before ++ (n, ['}']) :: after')).value) := by
  have hread (c : Collecting)
      (hc : (before.foldlM Collecting.readLine { ensemble := { defaults } }).value = .ok c) :
      c.inMeta = false ∧ (block.map Prod.snd).foldlM Collecting.readText c =
        if '}' ∈ title ∨ '}' ∈ composer then c.readText ['}'] else .ok c := by
    have hmeta : c.inMeta = false := (Collecting.holds_foldlM hc).inMeta.trans hbefore
    exact ⟨hmeta, hblock ▸ Collecting.foldlM_credits hmeta⟩
  refine ⟨fun htitle hcomposer ↦ ?_, fun hheading ↦ ?_, fun hbrace ↦ ?_⟩
  · have hsame := collect_replace [] hafter fun c hc ↦ by
      rw [(hread c hc).2, if_neg (by simp [htitle, hcomposer])]
      rfl
    rwa [List.append_nil] at hsame
  · have hsame := collect_replace [] hafter fun c hc ↦ by
      -- a brace on its own does nothing where no group is open
      rw [(hread c hc).2, Collecting.readText_brace (hread c hc).1, hheading c hc]
      exact ite_self _
    rwa [List.append_nil] at hsame
  · have hsame := collect_replace [(n, ['}'])] hafter fun c hc ↦ by
      rw [(hread c hc).2, if_pos hbrace]
      exact (bind_pure _).symm
    rwa [List.append_assoc _ [_], List.singleton_append] at hsame

/-! ## A block in a group -/

/-- A group that is open. -/
def strings : List (Nat × List Char) := [(1, "group \"Strings\" \x7b".toList), (2, "def vn".toList)]

/-- A block in it. -/
def programme (title : List Char) : List (Nat × List Char) :=
  [(3, "meta \x7b".toList), (4, MetaBlock.entry "title".toList title),
    (5, "composer: \"Anon\"".toList), (6, ['}'])]

/-- The rest of the group, numbered from a line. -/
def otherStrings (n : Nat) : List (Nat × List Char) := [(n, "def vc".toList), (n + 1, ['}'])]

theorem collect_credits_suite :
    MetaBlock.behind strings = false ∧
      (programme "Suite".toList).map Prod.snd = MetaBlock.credits "Suite".toList "Anon".toList ∧
      (otherStrings 7).map Prod.snd = (otherStrings 3).map Prod.snd ∧
      '}' ∉ "Suite".toList ∧ '}' ∉ "Anon".toList ∧
      (collect {} (strings ++ programme "Suite".toList ++ otherStrings 7)).value =
        (collect {} (strings ++ otherStrings 3)).value := by
  have hbefore : MetaBlock.behind strings = false := rfl
  have htitle : '}' ∉ "Suite".toList := by decide
  have hcomposer : '}' ∉ "Anon".toList := by decide
  have hblock : (programme "Suite".toList).map Prod.snd =
      MetaBlock.credits "Suite".toList "Anon".toList := rfl
  have hafter : (otherStrings 7).map Prod.snd = (otherStrings 3).map Prod.snd := rfl
  exact ⟨hbefore, hblock, hafter, htitle, hcomposer,
    (collect_credits {} 0 hbefore hblock hafter).1 htitle hcomposer⟩

/-- A title with a closing brace. -/
def bracedTitle : List Char := "a \x7d b".toList

/-- The title ends the block, and the brace of the block ends the group: what is declared behind it
is left out of the group. -/
theorem collect_braced :
    strings ++ programme bracedTitle ++ otherStrings 7 =
        numbered ("group \"Strings\" \x7b\ndef vn\nmeta \x7b\ntitle: \"a \x7d b\"\n" ++
          "composer: \"Anon\"\n\x7d\ndef vc\n\x7d").toList ∧
      MetaBlock.behind strings = false ∧ '"' ∉ bracedTitle ∧ '\n' ∉ bracedTitle ∧
      (programme bracedTitle).map Prod.snd = MetaBlock.credits bracedTitle "Anon".toList ∧
      (∃ e, (collect {} (strings ++ programme bracedTitle ++ otherStrings 7)).value = .ok e ∧
        e.groups = [⟨"Strings", ["vn"]⟩, ⟨"Ungrouped", ["vc"]⟩]) ∧
      ∃ e, (collect {} (strings ++ otherStrings 3)).value = .ok e ∧
        e.groups = [⟨"Strings", ["vn", "vc"]⟩] := by
  obtain ⟨e, he, h⟩ := exists_ok_of_any
    (x := (collect {} (strings ++ programme bracedTitle ++ otherStrings 7)).value)
    (f := fun e ↦ e.groups = [⟨"Strings", ["vn"]⟩, ⟨"Ungrouped", ["vc"]⟩]) (by decide +kernel)
  obtain ⟨e', he', h'⟩ := exists_ok_of_any (x := (collect {} (strings ++ otherStrings 3)).value)
    (f := fun e ↦ e.groups = [⟨"Strings", ["vn", "vc"]⟩]) (by decide +kernel)
  exact ⟨by decide +kernel, by decide +kernel, by decide, by decide, rfl,
    ⟨e, he, of_decide_eq_true h⟩, e', he', of_decide_eq_true h'⟩

end

end Ensemble

end TextScore
