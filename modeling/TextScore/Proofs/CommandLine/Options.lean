import Mathlib.Data.List.Basic
import TextScore.CommandLine.Run
import TextScore.Proofs.Noted

/-!
# A command with another option

Arguments are read from left to right, and options do not look at one another.  So a command that is
given the path of an output as well asks for the same, but for that path.

Options are read in the order of their first places among the arguments, and the first one that
cannot be read ends the run.  A new option that can always be read, as a path can, changes neither
that order nor what the others are read as.

## What is here

* `Arguments.AddsOutput` — the same arguments, with the path of an output somewhere among them.
* `Arguments.addsOutput_of_parse` — the path in front of the other arguments.
* `Request.ofArguments_addsOutput` — what the longer command asks for.
-/

set_option autoImplicit false

namespace TextScore

/-- A new item keeps its place when the repetitions go. -/
theorem exists_eraseDups_insert {α : Type} [DecidableEq α] {a : α} {xs ys : List α}
    (hxs : a ∉ xs) (hys : a ∉ ys) : ∃ zs ws, (xs ++ ys).eraseDups = zs ++ ws ∧
      (xs ++ a :: ys).eraseDups = zs ++ a :: ws := by
  refine ⟨xs.eraseDups, (ys.removeAll xs).eraseDups, List.eraseDups_append, ?_⟩
  have hhead : (a :: ys).removeAll xs = a :: ys.removeAll xs := by
    rw [List.cons_removeAll, if_pos (by simpa using hxs)]
  have htail : (ys.removeAll xs).filter (fun b ↦ !b == a) = ys.removeAll xs := by
    rw [List.filter_eq_self]
    intro b hb
    have hne : b ≠ a := by
      rintro rfl
      exact hys (List.mem_of_mem_filter hb)
    rw [beq_eq_false_iff_ne.mpr hne, Bool.not_false]
  rw [List.eraseDups_append, hhead, List.eraseDups_cons, htail]

namespace CommandLine

namespace Arguments

/-- The second arguments are the first ones with the path of an output somewhere among the options,
where there was none. -/
structure AddsOutput (path : String) (a a' : Arguments) : Prop where
  /-- The same arguments that are no options. -/
  positional : a'.positional = a.positional
  /-- One option more. -/
  options : ∃ before behind, a.options = before ++ behind ∧
    a'.options = before ++ (.output, path) :: behind
  /-- The first arguments name no output. -/
  absent : ∀ o ∈ a.options, o.1 ≠ .output

variable {path : String} {a a' : Arguments}

theorem AddsOutput.value?_output (h : AddsOutput path a a') :
    a.value? .output = none ∧ a'.value? .output = some path := by
  obtain ⟨before, behind, ha, ha'⟩ := h.options
  have hnone {os : List (Flag × String)} (hos : ∀ o ∈ os, o ∈ a.options) :
      os.reverse.find? (fun o ↦ o.1 == .output) = none := by
    rw [List.find?_eq_none]
    intro o ho
    rw [beq_iff_eq]
    exact h.absent o (hos o (List.mem_reverse.mp ho))
  constructor
  · rw [value?, hnone fun _ ho ↦ ho, Option.map_none]
  · have hbehind : ∀ o ∈ behind, o ∈ a.options := fun o ho ↦ ha ▸ List.mem_append_right _ ho
    rw [value?, ha', List.reverse_append, List.reverse_cons, List.find?_append, List.find?_append,
      hnone hbehind]
    rfl

theorem AddsOutput.value?_of_ne (h : AddsOutput path a a') {f : Flag} (hf : f ≠ .output) :
    a'.value? f = a.value? f := by
  obtain ⟨before, behind, ha, ha'⟩ := h.options
  have hother : ((Flag.output, path).1 == f) = false := beq_eq_false_iff_ne.mpr hf.symm
  rw [value?, value?, ha, ha', List.reverse_append, List.reverse_append, List.reverse_cons,
    List.find?_append, List.find?_append, List.find?_append, List.find?_singleton, hother]
  simp

theorem AddsOutput.count_of_ne (h : AddsOutput path a a') {f : Flag} (hf : f ≠ .output) :
    a'.count f = a.count f := by
  obtain ⟨before, behind, ha, ha'⟩ := h.options
  have hother : ¬((Flag.output, path).1 == f) = true := by simpa using hf.symm
  rw [count, count, ha, ha', List.countP_append, List.countP_append,
    List.countP_cons_of_neg (p := fun o : Flag × String ↦ o.1 == f) hother]

theorem AddsOutput.exists_flags (h : AddsOutput path a a') :
    ∃ fs gs, a.flags = fs ++ gs ∧ a'.flags = fs ++ .output :: gs ∧
      (∀ f ∈ fs, f ≠ .output) ∧ ∀ f ∈ gs, f ≠ .output := by
  obtain ⟨before, behind, ha, ha'⟩ := h.options
  have habsent : Flag.output ∉ a.options.map (·.1) := by
    rw [List.mem_map]
    rintro ⟨o, ho, heq⟩
    exact h.absent o ho heq
  have hmem : ∀ f ∈ a.flags, f ≠ .output := by
    rintro _ hf rfl
    exact habsent (List.mem_eraseDups.mp hf)
  rw [ha, List.map_append, List.mem_append, not_or] at habsent
  obtain ⟨fs, gs, hflags, hflags'⟩ := exists_eraseDups_insert habsent.1 habsent.2
  rw [← List.map_append, ← ha] at hflags
  have hboth : a.flags = fs ++ gs := hflags
  rw [hboth, List.forall_mem_append] at hmem
  refine ⟨fs, gs, hboth, ?_, hmem⟩
  rw [flags, ha', List.map_append, List.map_cons, hflags']

/-- Options that were read before stay in front. -/
theorem Grammar.parseOnto_options (g : Grammar) (os : List (Flag × String)) (a : Arguments)
    (args : List String) : g.parseOnto { a with options := os ++ a.options } args =
      (g.parseOnto a args).map fun b ↦ { b with options := os ++ b.options } := by
  -- the cases are those of the parser: no argument, the mark that ends options, a wrong option,
  -- one that is right, and an argument that is none, behind which options may stand or may not
  fun_induction g.parseOnto a args with
  | case1 a => rw [parseOnto]; rfl
  | case2 a rest => rw [parseOnto, if_pos rfl]; rfl
  | case3 a arg rest h ho e he =>
    rw [parseOnto, if_neg h, if_pos ho]
    split
    case h_1 e' he' => rw [he] at he'; cases he'; rfl
    case h_2 he' => rw [he] at he'; cases he'
  | case4 a arg rest h ho os' rest' hr hlen ih =>
    rw [parseOnto, if_neg h, if_pos ho]
    split
    case h_1 he => rw [hr] at he; cases he
    case h_2 hr' =>
      rw [hr] at hr'
      cases hr'
      rw [List.append_assoc]
      exact ih
  | case5 a arg rest h ho hg ih =>
    rw [parseOnto, if_neg h, if_neg ho, if_pos hg]
    exact ih
  | case6 a arg rest h ho hg =>
    rw [parseOnto, if_neg h, if_neg ho, if_neg hg]
    rfl

/-- The path of an output right behind the name of a command. -/
theorem addsOutput_of_parse {t : Task} {args : List String} (h : t.grammar.parse args = .ok a)
    (habsent : ∀ o ∈ a.options, o.1 ≠ .output) (path : String) :
    ∃ a', t.grammar.parse ("-o" :: path :: args) = .ok a' ∧ a.AddsOutput path a' := by
  have hread : t.grammar.readOptions "-o" (path :: args) = .ok ([(.output, path)], args) := by
    cases t <;> rfl
  refine ⟨{ a with options := (.output, path) :: a.options }, ?_, ⟨rfl, ⟨[], a.options, rfl, rfl⟩,
    habsent⟩⟩
  have honto := t.grammar.parseOnto_options [(.output, path)] {} args
  rw [Grammar.parse] at h ⊢
  rw [h] at honto
  rw [Grammar.parseOnto, if_neg (by decide), if_pos (by rfl)]
  split
  case h_1 he => rw [hread] at he; cases he
  case h_2 hr =>
    rw [hread] at hr
    cases hr
    exact honto

end Arguments

/-! ## What is asked for

Reading an option changes one field of the request, and that of the output is its own. -/

namespace Request

variable {path : String} {a a' : Arguments}

/-- The option is read when it is given, and only then. -/
theorem readOption_output (a : Arguments) (r : Request) :
    readOption a r .output = .ok { r with output? := (a.value? .output).or r.output? } := by
  rw [readOption.eq_def]
  cases a.value? .output <;> rfl

theorem readOption_congr {f : Flag} (h : a'.value? f = a.value? f) (r : Request) :
    readOption a' r f = readOption a r f := by
  rw [readOption.eq_def, readOption.eq_def, h]

/-- The other options leave the output alone. -/
theorem readOption_withOutput (ha : a.value? .output = none) (output? : Option String)
    (r : Request) (f : Flag) : readOption a { r with output? } f =
      (readOption a r f).map fun r ↦ { r with output? } := by
  rw [readOption.eq_def, readOption.eq_def]
  cases f with
  | output => rw [ha]; rfl
  | format =>
    cases a.value? .format with
    | none => rfl
    | some value => dsimp only; cases OutputFormat.ofName? value <;> rfl
  | tempo =>
    cases a.value? .tempo with
    | none => rfl
    | some value => dsimp only; cases readTempo value <;> rfl
  | version => cases a.value? .version <;> rfl
  | verbose => cases a.value? .verbose <;> rfl
  | help => cases a.value? .help <;> rfl

/-- Without the path of an output, none is asked for. -/
theorem output?_ofArguments (ha : a.value? .output = none) {r : Request}
    (h : ofArguments a = .ok r) : r.output? = none := by
  obtain ⟨r₁, hr₁, h⟩ := bind_eq_ok h
  have hreset := foldlM_map (readOption_withOutput ha none) a.flags { score := "" }
  have hnone : r₁.output? = none := by
    rw [hr₁] at hreset
    exact congrArg output? (Except.ok.inj hreset)
  split at h
  case h_1 => cases h
  case h_2 => cases h; exact hnone

/-- **The other options count as before.** -/
theorem ofArguments_addsOutput (h : a.AddsOutput path a') :
    ofArguments a' = (ofArguments a).map fun r ↦ { r with output? := some path } := by
  obtain ⟨hnone, hsome⟩ := h.value?_output
  obtain ⟨fs, gs, hflags, hflags', hfs, hgs⟩ := h.exists_flags
  have hsame {l : List Flag} (hl : ∀ f ∈ l, f ≠ .output) (r : Request) :
      l.foldlM (readOption a') r = l.foldlM (readOption a) r :=
    foldlM_congr (fun r f hf ↦ readOption_congr (h.value?_of_ne (hl f hf)) r) r
  rw [ofArguments, ofArguments, hflags, hflags', List.foldlM_append, List.foldlM_append, hsame hfs,
    h.positional]
  cases fs.foldlM (readOption a) { score := "" } with
  | error e => rfl
  | ok r =>
    have hread : readOption a' r .output = .ok { r with output? := some path } := by
      rw [readOption_output, hsome, Option.some_or]
    rw [ok_bind, ok_bind, List.foldlM_cons, hread, ok_bind, hsame hgs,
      foldlM_map (readOption_withOutput hnone (some path))]
    cases gs.foldlM (readOption a) r with
    | error e => rfl
    | ok r => cases a.positional <;> rfl

end Request

end CommandLine

end TextScore
