import TextScore.CommandLine.Run
import TextScore.Proofs.CommandLine.Session
import TextScore.Proofs.Noted

/-!
# What the commands do

For each step of the commands there is a rule: what has to hold behind it, and of the ends that it
can come to.  Up to the step that writes a file, every end leaves the files as they were.

A rule has one hypothesis for each way in which the step can come out, with what is known then.  So
a proof about a command follows the command, step by step, and at every end there is one small thing
left to show.  The rules for the two commands leave open what holds in the end; they are used for
more than one statement.

## What is here

* `Directory.text?` — the text of a file.
* `Request.score?` — the score that a request names, if it can be read and compiles.
* `Request.Admitted` — what the arguments ask for, if they are accepted.
* `Does.runMidi`, `Does.runCompile` — the commands.
* `Calls`, `Does.runProgram` — a run that comes to a command with its arguments.
-/

set_option autoImplicit false

namespace TextScore

open Text Midi

/-- The text of a file, if it is there and is UTF-8. -/
def Directory.text? (d : Directory) (path : String) : Option String :=
  match d.resolve (Path.normal path) with
  | .ok (.file bytes) =>
    (Utf8.decode bytes).toOption.map fun s ↦ String.ofList (Utf8.unifyLineEnds s)
  | _ => none

/-- A file can be written under a path. -/
structure Directory.CanWrite (d : Directory) (path : String) : Prop where
  /-- The path has no null character. -/
  usable : '\x00' ∉ path.toList
  /-- It leads to a place for a file. -/
  target : ∃ l, d.target path = .ok l

theorem Directory.CanWrite.exists_write {d : Directory} {path : String} (h : d.CanWrite path)
    (bytes : List UInt8) : ∃ d', d.write path bytes = .ok d' := by
  obtain ⟨l, hl⟩ := h.target
  exact ⟨_, by rw [Directory.write, hl]; rfl⟩

namespace CommandLine

namespace Request

/-- The score of a text, under the tempo that is asked for. -/
def compile (r : Request) (text : String) : Except Fault Score := do
  let defaults ← ({} : Defaults).withTempo r.tempo?
  (Score.ofText defaults text).1

/-- The score that is named, if it can be read and compiles. -/
def score? (r : Request) (d : Directory) : Option Score :=
  (d.text? r.score).bind fun text ↦ (r.compile text).toOption

theorem score?_of_text {r : Request} {d : Directory} {text : String}
    (h : d.text? r.score = some text) : r.score? d = (r.compile text).toOption := by
  rw [score?, h, Option.bind_some]

/-- The arguments of a command are accepted, and ask for this. -/
structure Admitted (d : Directory) (a : Arguments) (r : Request) : Prop where
  /-- What the arguments ask for. -/
  request : ofArguments a = .ok r
  /-- The path of the score has no null character. -/
  usable : '\x00' ∉ r.score.toList
  /-- It leads to a file, and nothing stands behind it. -/
  check : r.check d a = .ok ()

/-- What is asked for names the first argument that is no option. -/
theorem Admitted.head?_positional {d : Directory} {a : Arguments} {r : Request}
    (h : r.Admitted d a) : a.positional.head? = some r.score := by
  obtain ⟨r', -, hr⟩ := bind_eq_ok h.request
  split at hr
  case h_1 => cases hr
  case h_2 hpositional =>
    cases hr
    rw [hpositional]
    rfl

theorem Admitted.exists_resolve {d : Directory} {a : Arguments} {r : Request}
    (h : r.Admitted d a) : ∃ bytes, d.resolve r.score = .ok (.file bytes) := by
  have hcheck := h.check
  rw [Request.check] at hcheck
  split at hcheck
  case h_3 bytes hfile _ => exact ⟨bytes, hfile⟩
  all_goals cases hcheck

/-- What is shown of a score has gone to standard output, or to the file that is asked for. -/
structure Puts (r : Request) (content : String) (t u : Session) : Prop where
  /-- Without a path it has gone to standard output. -/
  said : r.output? = none →
    u.directory = t.directory ∧ u.stdout = t.stdout ++ dropEscapes content
  /-- With a path it has gone to the file. -/
  written : ∀ path, r.output? = some path →
    t.directory.write (Path.normal path) (Utf8.encode content.toList) = .ok u.directory

theorem Puts.congr {r : Request} {content : String} {t t' u u' : Session}
    (h : r.Puts content t u) (ht : t'.Keeps t) (hu : u.Keeps u') : r.Puts content t' u' := by
  refine ⟨fun houtput ↦ ?_, fun path houtput ↦ ?_⟩
  · rw [hu.directory, hu.stdout, ← ht.directory, ← ht.stdout]
    exact h.said houtput
  · rw [hu.directory, ← ht.directory]
    exact h.written path houtput

end Request

/-- What a command does with what is asked for. -/
def Task.perform : Task → Request → Command Unit
  | compile => runCompile
  | midi => runMidi

variable {α : Type} {t : Session} {E : Ending → Session → Prop}

namespace Does

/-! ## Steps that can fail

Arguments that are refused end a run with exit code 2, files that cannot be read or written with
1. -/

theorem refuse {task? : Option Task} {e : UsageError} {Q : α → Session → Prop}
    (h : ∀ u, t.Keeps u → E (.exit 2) u) : Does (CommandLine.refuse task? e) t Q E := by
  have hend {t' : Session} (ht : t.Keeps t') : Does (do
      CommandLine.warnLine ("Error: " ++ e.message)
      CommandLine.exitWith 2) t' Q E :=
    .bind (.warnLine fun u hu ↦ .exitWith (h u (ht.trans hu)))
  rw [CommandLine.refuse]
  split
  case isTrue =>
    exact .bind (.warnLine fun u hu ↦ .bind (.warnLine fun v hv ↦ .bind (.warnLine fun w hw ↦
      hend ((hu.trans hv).trans hw))))
  case isFalse => exact hend ⟨rfl, rfl⟩

theorem orRefuse {task? : Option Task} {x : Except UsageError α} {Q : α → Session → Prop}
    (hok : ∀ a, x = .ok a → Q a t) (herror : ∀ e u, t.Keeps u → x = .error e → E (.exit 2) u) :
    Does (CommandLine.orRefuse task? x) t Q E := by
  cases x with
  | ok a => exact pure (hok a rfl)
  | error e => exact refuse fun u hu ↦ herror e u hu rfl

theorem fileFailure {doing message : String} {Q : α → Session → Prop}
    (h : ∀ u, t.Keeps u → E (.exit 1) u) : Does (CommandLine.fileFailure doing message) t Q E :=
  .bind (.warnLine fun u hu ↦ .exitWith (h u hu))

section

variable {Q : Unit → Session → Prop}

theorem checkPath {path : String} (hok : '\x00' ∉ path.toList → Q () t)
    (herror : ∀ f, '\x00' ∈ path.toList → E (.broken f) t) :
    Does (CommandLine.checkPath path) t Q E := by
  rw [CommandLine.checkPath]
  split
  case isTrue h =>
    exact .orBreak (fun _ hf ↦ by cases hf) fun f _ ↦ herror f (List.contains_iff_mem.mp h)
  case isFalse h => exact pure (hok fun hmem ↦ h (List.contains_iff_mem.mpr hmem))

theorem writeFile {doing path : String} {bytes : List UInt8}
    (hok : ∀ d, t.directory.write path bytes = .ok d → Q () { t with directory := d })
    (herror : ∀ e u, t.Keeps u → e.code = 1 → ¬t.directory.CanWrite path → E e u) :
    Does (CommandLine.writeFile doing path bytes) t Q E := by
  refine .bind (.checkPath (fun _ ↦ .bind (.get ?_)) fun f hmem ↦
    herror _ t ⟨rfl, rfl⟩ rfl fun h ↦ h.usable hmem)
  cases hwrite : t.directory.write path bytes with
  | ok d => exact modify (hok d hwrite)
  | error e =>
    refine fileFailure fun u hu ↦ herror _ u hu rfl fun h ↦ ?_
    obtain ⟨d, hd⟩ := h.exists_write bytes
    rw [hwrite] at hd
    cases hd

theorem refuseEmpty {s : Score} (hok : s.events ≠ [] → Q () t)
    (hempty : ∀ u, t.Keeps u → s.events = [] → E (.exit 1) u) :
    Does (CommandLine.refuseEmpty s) t Q E := by
  rw [CommandLine.refuseEmpty, Score.hasPlayableNotes, Bool.not_not]
  split
  case isTrue h =>
    exact .bind (.warnLine fun u hu ↦ .exitWith (hempty u hu (List.isEmpty_iff.mp h)))
  case isFalse h => exact pure (hok fun hevents ↦ h (List.isEmpty_iff.mpr hevents))

end

/-! ## Reading and compiling

What is logged on the way goes neither to standard output nor to a file. -/

theorem readText {path : String} {Q : String → Session → Prop}
    (hok : ∀ text, t.directory.text? path = some text → Q text t)
    (herror : ∀ u, t.Keeps u → t.directory.text? path = none → E (.exit 1) u) :
    Does (CommandLine.readText path) t Q E := by
  rw [Directory.text?] at hok herror
  refine .bind (.get ?_)
  split
  case h_1 e he => exact fileFailure fun u hu ↦ herror u hu (by rw [he])
  case h_2 he => exact fileFailure fun u hu ↦ herror u hu (by rw [he])
  case h_3 bytes he =>
    rw [he] at hok herror
    dsimp only at hok herror
    cases hdecode : Utf8.decode bytes with
    | error e =>
      rw [hdecode] at herror
      exact fileFailure fun u hu ↦ herror u hu rfl
    | ok s =>
      rw [hdecode] at hok
      exact pure (hok _ rfl)

theorem compileScore {r : Request} {Q : Score → Session → Prop}
    (hok : ∀ s u, t.Keeps u → r.score? t.directory = some s → Q s u)
    (herror : ∀ e u, t.Keeps u → e.code = 1 → r.score? t.directory = none → E e u) :
    Does (CommandLine.compileScore r) t Q E := by
  refine .bind (.readText (fun text htext ↦ ?_) fun u hu htext ↦
    herror _ u hu rfl (by rw [Request.score?, htext]; rfl))
  rw [Request.score?_of_text htext, Request.compile] at hok herror
  refine .bind (.orBreak (fun defaults hdefaults ↦ ?_) fun f hf ↦
    herror _ t ⟨rfl, rfl⟩ rfl (by rw [hf]; rfl))
  rw [hdefaults, ok_bind] at hok herror
  rcases hrun : Score.ofText defaults text with ⟨score, journal⟩
  rw [hrun] at hok herror
  refine .bind (.logAll fun u hu ↦ .orBreak (fun s hs ↦ hok s u hu ?_) fun f hf ↦
    herror _ u hu rfl ?_)
  · exact congrArg Except.toOption hs
  · exact congrArg Except.toOption hf

/-! ## The commands

Both commands compile the score first. -/

/-- Exporting a score: whatever ends the run before the file is opened leaves the files as they
were. -/
theorem runMidi {r : Request} {Q : Unit → Session → Prop}
    (hwrite : ∀ s a path u, r.score? t.directory = some s → s.events ≠ [] → r.build s = .ok a →
      Does (CommandLine.writeArrangement path a) u Q E)
    (herror : ∀ e u, u.directory = t.directory → e.code = 1 → E e u) :
    Does (CommandLine.runMidi r) t Q E := by
  refine .bind (.sayLine fun u₁ h₁ ↦ .bind (.sayLine fun u₂ h₂ ↦ .bind (.sayLine fun u₃ h₃ ↦
    .bind (.sayLine fun u₄ h₄ ↦ .bind (.sayLine fun u₅ h₅ ↦ ?_)))))
  have h : u₅.directory = t.directory := by rw [h₅, h₄, h₃, h₂, h₁]
  rw [← h] at hwrite herror
  clear h₁ h₂ h₃ h₄ h₅ h
  refine .bind (.compileScore (fun s u₆ h₆ hs ↦ ?_) fun e u hu hcode _ ↦
    herror e u hu.directory hcode)
  refine .bind (.forM_warnLine fun u₇ h₇ ↦ ?_)
  refine .bind (.refuseEmpty (fun hevents ↦ ?_) fun u hu _ ↦
    herror _ u ((h₆.trans h₇).trans hu).directory rfl)
  refine .bind (.sayLine fun u₈ h₈ ↦ .bind (.sayLine fun u₉ h₉ ↦ ?_))
  -- Nothing has been written to a file yet, and building does not write either.
  have h : u₉.directory = u₅.directory := by rw [h₉, h₈, (h₆.trans h₇).directory]
  refine .bind (.orBreak (fun a ha ↦ ?_) fun f _ ↦ herror _ u₉ h rfl)
  exact .bind (.logAll fun u₁₀ _ ↦ hwrite s a _ u₁₀ hs hevents ha)

/-- Showing a score. -/
theorem runCompile {r : Request} {Q : Unit → Session → Prop} {s : Score} {content : String}
    (hs : r.score? t.directory = some s) (hcontent : render r.format s = .ok content)
    (houtput : ∀ path, r.output? = some path → t.directory.CanWrite (Path.normal path))
    (hok : ∀ u, r.Puts content t u → s.events ≠ [] → Q () u)
    (hempty : ∀ u, r.Puts content t u → s.events = [] → E (.exit 1) u) :
    Does (CommandLine.runCompile r) t Q E := by
  refine .bind (.compileScore (fun s' u hu hs' ↦ ?_) fun _ _ _ _ h ↦ ?_)
  · cases hs.symm.trans hs'
    refine .bind (.orBreak (fun content' h ↦ ?_) fun f h ↦ ?_)
    · cases hcontent.symm.trans h
      -- A score without notes is refused behind the output, wherever that has gone.
      have hrefuse {v : Session} (hv : r.Puts content t v) :
          Does (CommandLine.refuseEmpty s) v Q E :=
        refuseEmpty (hok v hv) fun w hw ↦ hempty w (hv.congr ⟨rfl, rfl⟩ hw)
      split
      case h_1 hnone =>
        refine .bind (.say (hrefuse ⟨fun _ ↦ ⟨hu.directory, ?_⟩, fun path hsome ↦ ?_⟩))
        · rw [← hu.stdout]
        · rw [hnone] at hsome
          cases hsome
      case h_2 path hsome =>
        have hcan := houtput path hsome
        rw [← hu.directory] at hcan
        refine .bind (.writeFile (fun d hd ↦ .bind (.sayLine fun v hv ↦ ?_)) fun _ _ _ _ h ↦
          absurd hcan h)
        refine hrefuse ⟨fun hnone ↦ ?_, fun path' hsome' ↦ ?_⟩
        · rw [hsome] at hnone
          cases hnone
        · rw [hsome] at hsome'
          cases hsome'
          rw [← hu.directory, hd, hv]
    · rw [hcontent] at h
      cases h
  · rw [hs] at h
    cases h

/-! ## From the arguments to a command

The program reads its own options up to the name of a command, and the command reads the rest. -/

/-- Running a command: it starts if its arguments are accepted, and else nothing is written but
what is wrong. -/
theorem runTask {task : Task} {args : List String} {a : Arguments} {Q : Unit → Session → Prop}
    (hparse : task.grammar.parse args = .ok a) (hhelp : a.count .help = 0)
    (hrun : ∀ r : Request, r.Admitted t.directory a → Does (task.perform r) t Q E)
    (herror : ∀ e u, t.Keeps u → e.code ≠ 0 → (∀ r : Request, ¬r.Admitted t.directory a) → E e u) :
    Does (CommandLine.runTask task args) t Q E := by
  -- the steps in order: arguments, request, path, file; if one of them fails, the arguments are not
  -- accepted
  refine .bind (.orRefuse (fun a' ha' ↦ ?_) fun e u _ he ↦ ?_)
  · cases hparse.symm.trans ha'
    rw [if_neg (by rw [hhelp]; exact Nat.lt_irrefl 0)]
    refine .bind (.orRefuse (fun r hr ↦ ?_) fun e u hu he ↦
      herror _ u hu (by decide) fun r hr ↦ ?_)
    · refine .bind (.checkPath (fun hpath ↦ .bind (.get (.bind (.orRefuse (fun _ hcheck ↦ ?_)
        fun e u hu he ↦ ?_)))) fun f hpath ↦ ?_)
      · have h := hrun r ⟨hr, hpath, hcheck⟩
        cases task <;> exact h
      · refine herror _ u hu (by decide) fun r' hr' ↦ ?_
        cases hr.symm.trans hr'.request
        rw [hr'.check] at he
        cases he
      · refine herror _ t ⟨rfl, rfl⟩ Nat.one_ne_zero fun r' hr' ↦ ?_
        cases hr.symm.trans hr'.request
        exact hr'.usable hpath
    · rw [hr.request] at he
      cases he
  · rw [hparse] at he
    cases he

end Does

/-- The arguments of a run come to a command with arguments of its own, and none asks for help or
for the version. -/
structure Calls (args : List String) (task : Task) (a : Arguments) : Prop where
  /-- The command is named, and its arguments can be read. -/
  command : ∃ p name rest, programGrammar.parse args = .ok p ∧ p.count .version = 0 ∧
    p.count .help = 0 ∧ p.positional = name :: rest ∧ Task.ofName? name = some task ∧
    task.grammar.parse rest = .ok a
  /-- No help is asked for. -/
  help : a.count .help = 0

/-- A command line that starts with the name of the command. -/
theorem calls_compile_iff {args : List String} {a : Arguments} :
    Calls ("compile" :: args) .compile a ↔
      Task.compile.grammar.parse args = .ok a ∧ a.count .help = 0 := by
  have hparse : programGrammar.parse ("compile" :: args) = .ok ⟨[], "compile" :: args⟩ := by
    rw [Arguments.Grammar.parse, Arguments.Grammar.parseOnto, if_neg (by decide),
      if_neg (by decide +kernel), if_neg (by decide)]
    rfl
  constructor
  · rintro ⟨⟨p, name, rest, hp, -, -, hpositional, -, h⟩, hhelp⟩
    rw [hparse] at hp
    obtain rfl := Except.ok.inj hp
    obtain ⟨rfl, rfl⟩ := List.cons.inj hpositional
    exact ⟨h, hhelp⟩
  · rintro ⟨h, hhelp⟩
    exact ⟨⟨_, "compile", args, hparse, rfl, rfl, rfl, rfl, h⟩, hhelp⟩

theorem readProgramArguments_eq {args : List String} {p : Arguments}
    (hp : programGrammar.parse args = .ok p) (hversion : p.count .version = 0)
    (hhelp : p.count .help = 0) : readProgramArguments args = pure p := by
  rw [readProgramArguments, hp, orRefuse, pure_bind, if_neg (by rw [hversion]; decide),
    if_neg (by rw [hhelp]; decide)]

theorem Does.runProgram {args : List String} {task : Task} {a : Arguments}
    {Q : Unit → Session → Prop} (h : Calls args task a)
    (hrun : ∀ u, t.Keeps u → ∀ r : Request, r.Admitted t.directory a →
      Does (task.perform r) u Q E)
    (herror : ∀ e u, t.Keeps u → e.code ≠ 0 → (∀ r : Request, ¬r.Admitted t.directory a) → E e u) :
    Does (CommandLine.runProgram args) t Q E := by
  obtain ⟨p, name, rest, hp, hversion, hhelp, hpositional, hname, hparse⟩ := h.command
  rw [CommandLine.runProgram, readProgramArguments_eq hp hversion hhelp, pure_bind, hpositional]
  dsimp only
  rw [hname]
  refine .bind (.modify (.runTask hparse h.help (fun r hr ↦ ?_) fun e u hu hcode hr ↦ ?_))
  · exact hrun { t with level := .ofVerbosity (p.count .verbose) } ⟨rfl, rfl⟩ r hr
  · exact herror e u ⟨hu.stdout, hu.directory⟩ hcode hr

/-- What a run comes to, from what the program does. -/
theorem run_of_does {clock : String} {d : Directory} {args : List String}
    {P : Nat → Session → Prop} (h : Does (runProgram args) { directory := d, clock }
      (fun _ u ↦ P 0 u) fun e u ↦ P e.code u) :
    P (run clock d args).exitCode (run clock d args).session := by
  have hrun := h.holds
  rw [run, EStateM.run]
  split
  case h_1 heq => rw [heq] at hrun; exact hrun
  case h_2 heq => rw [heq] at hrun; exact hrun
  case h_3 heq => rw [heq] at hrun; exact hrun

end CommandLine

end TextScore
