import TextScore.CommandLine.Session
import TextScore.Proofs.Noted
import TextScore.Proofs.Text.Scan

/-!
# What the steps of a run do

A step either goes on, with a value, or ends the run; what was written by then is kept in both
cases.  So what a step does is said by two conditions, one on the value and the session behind it,
and one on the end and the session that it leaves.

The condition on ends is the same for all steps of a chain, while that on values is passed from one
step to the next (`Does.bind`).  Conditions are functions of the session, so what a step leaves as
it was need not be said: the rule for the step says what the session is behind it, or that it keeps
output and files.

## What is here

* `Does` — what a step does from a session on, with a rule for each step of a run.
* `Session.Keeps` — nothing was printed, and no file changed.
* `dropEscapes_of_not_mem` — a text without the escape character is printed as it is.
-/

set_option autoImplicit false

namespace TextScore.CommandLine

open Text

variable {α β : Type}

/-- The exit code that an end comes to. -/
def Ending.code : Ending → Nat
  | .exit code => code
  | .broken _ => 1

/-- Between two sessions nothing was written to standard output, and no file changed. -/
structure Session.Keeps (t u : Session) : Prop where
  /-- Standard output is the same. -/
  stdout : u.stdout = t.stdout
  /-- The files are the same. -/
  directory : u.directory = t.directory

theorem Session.Keeps.trans {t u v : Session} (h : t.Keeps u) (h' : u.Keeps v) : t.Keeps v :=
  ⟨h'.stdout.trans h.stdout, h'.directory.trans h.directory⟩

/-- From a session on, a step leads to a value and a session of which `Q` holds, or to an end and a
session of which `E` holds. -/
structure Does (x : Command α) (t : Session) (Q : α → Session → Prop)
    (E : Ending → Session → Prop) : Prop where
  /-- The conditions hold of what the step comes to. -/
  holds : match x t with
    | .ok a u => Q a u
    | .error e u => E e u

namespace Does

variable {t : Session} {Q : α → Session → Prop} {E : Ending → Session → Prop}

theorem pure {a : α} (h : Q a t) : Does (Pure.pure a) t Q E := ⟨h⟩

theorem bind {x : Command α} {f : α → Command β} {R : β → Session → Prop}
    (h : Does x t (fun a u ↦ Does (f a) u R E) E) : Does (x >>= f) t R E := by
  obtain ⟨hx⟩ := h
  refine ⟨?_⟩
  rw [bind_apply]
  cases hrun : x t with
  | ok a u =>
    rw [hrun] at hx
    exact hx.holds
  | error e u =>
    rw [hrun] at hx
    exact hx

theorem get {Q : Session → Session → Prop} (h : Q t t) : Does get t Q E := ⟨h⟩

theorem exitWith {code : Nat} (h : E (.exit code) t) :
    Does (CommandLine.exitWith code) t Q E := ⟨h⟩

theorem orBreak {x : Except Fault α} (hok : ∀ a, x = .ok a → Q a t)
    (herror : ∀ f, x = .error f → E (.broken f) t) : Does (CommandLine.orBreak x) t Q E := by
  cases x with
  | ok a => exact ⟨hok a rfl⟩
  | error f => exact ⟨herror f rfl⟩

section Writing

variable {Q : Unit → Session → Prop}

theorem modify {f : Session → Session} (h : Q () (f t)) : Does (modify f) t Q E := ⟨h⟩

theorem say {s : String} (h : Q () { t with stdout := t.stdout ++ dropEscapes s }) :
    Does (CommandLine.say s) t Q E := ⟨h⟩

/-- A line on standard output changes no file. -/
theorem sayLine {s : String} (h : ∀ u, u.directory = t.directory → Q () u) :
    Does (CommandLine.sayLine s) t Q E := ⟨h _ rfl⟩

theorem warnLine {s : String} (h : ∀ u, t.Keeps u → Q () u) :
    Does (CommandLine.warnLine s) t Q E := ⟨h _ ⟨rfl, rfl⟩⟩

theorem logAll {ls : List LogLine} (h : ∀ u, t.Keeps u → Q () u) :
    Does (CommandLine.logAll ls) t Q E := ⟨h _ ⟨rfl, rfl⟩⟩

theorem forM_warnLine {g : α → String} {as : List α} (h : ∀ u, t.Keeps u → Q () u) :
    Does (as.forM fun a ↦ CommandLine.warnLine (g a)) t Q E := by
  induction as generalizing t with
  | nil => exact pure (h t ⟨rfl, rfl⟩)
  | cons a as ih => exact bind (warnLine fun u hu ↦ ih fun v hv ↦ h v (hu.trans hv))

end Writing

end Does

/-! ## Terminal escapes

Every escape begins with the escape character, so without it there is nothing to drop. -/

theorem escapes_anywhere : escapes.Anywhere := fun _ _ ↦ rfl

theorem readEscape?_of_not_mem {s : List Char} (h : '\x1b' ∉ s) : readEscape? s = none := by
  unfold readEscape?
  split
  case h_1 => exact absurd List.mem_cons_self h
  case h_2 => rfl

theorem dropEscapes_of_not_mem {s : String} (h : '\x1b' ∉ s.toList) : dropEscapes s = s := by
  have hfound : found (escapes.pieces s.toList) = [] :=
    (escapes.found_pieces_eq_nil_iff escapes_anywhere).mpr fun t ht ↦
      readEscape?_of_not_mem fun hmem ↦ h (ht.subset hmem)
  rw [dropEscapes, Recogniser.pieces, escapes.fill_pieces_of_found_eq_nil _ false hfound,
    String.ofList_toList]

end TextScore.CommandLine
