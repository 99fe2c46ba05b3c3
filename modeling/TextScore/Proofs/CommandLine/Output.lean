import TextScore.Proofs.CommandLine.Directory
import TextScore.Proofs.CommandLine.Options
import TextScore.Proofs.CommandLine.Run
import TextScore.Proofs.Json.Clean
import TextScore.Proofs.Score.Drawn
import TextScore.Proofs.Score.Shown

/-!
# Where the output of a run goes

The commands come to their files last.  An export that fails has not touched a file by then, and
what is shown of a score is the same on standard output and in a file.

The two statements are about runs of the program from its arguments to its exit code, with all files
of a directory.  For the first one it has to be followed where a run can end: at arguments that are
refused, at a file that is not there or not UTF-8, at a fault in compiling, at a score without
notes, at a score of which no MIDI file can be built.  All of these come before the file of the
export is opened.  They are the five constructors of `Fails`, and a run with arguments that are not
even accepted ends as early.

For the second, two runs are compared that differ in one option.  Arguments are taken apart from
left to right, so the option may stand anywhere, and what is asked for is the same but for the path.
What is shown is printed in the one run and written in the other.  In printing, terminal escapes are
dropped; if there is no escape character in the score there is none in what is shown, neither in a
listing, whose characters are drawn from the score, nor in JSON text, which has no control
characters.

## What is here

* `Fails` — the ways in which an export fails before it writes.
* `Renders` — the arguments ask for a score to be shown, and it can be.
* `not_mem_render` — only the score could bring terminal escapes into what is shown.
* `Fails.run_midi`, `Renders.sameOutput` — what either comes to.
* `directory_of_run` — both in one.

A file that cannot be written after all is another matter: by then it has been opened, and is empty.
The path of the output is asked to be one that can be written.
-/

set_option autoImplicit false

namespace TextScore

open Text Midi

theorem Defaults.drawn_withTempo {src : List Char} {tempo? : Option Float} {d : Defaults}
    (h : ({} : Defaults).withTempo tempo? = .ok d) : d.Drawn src := by
  have hcommon : ({} : Defaults).Drawn src := ⟨.of_common (by decide), .of_common (by decide)⟩
  cases tempo? with
  | none =>
    cases h
    exact hcommon
  | some tempo =>
    rw [withTempo, check] at h
    split at h
    case isTrue => cases h
    case isFalse =>
      split at h
      case isTrue => cases h
      case isFalse =>
        split at h
        case isTrue => cases h; exact ⟨hcommon.duration, hcommon.groupName⟩
        case isFalse => cases h

namespace CommandLine

/-- The escape character is neither common nor in JSON text, so only the score could bring it into
what is shown. -/
theorem not_mem_render {r : Request} {text content : String} {s : Score}
    (htext : '\x1b' ∉ text.toList) (hs : r.compile text = .ok s)
    (hcontent : render r.format s = .ok content) : '\x1b' ∉ content.toList := by
  obtain ⟨defaults, hdefaults, hs⟩ := bind_eq_ok hs
  intro hmem
  rw [render.eq_def] at hcontent
  split at hcontent
  case h_1 =>
    have hdrawn := Score.drawnFrom_listing_ofText (Defaults.drawn_withTempo hdefaults) hs hcontent
    rcases hdrawn _ hmem with h | h
    · exact htext h
    · exact absurd h (by decide)
  case h_2 =>
    obtain ⟨j, -, rfl⟩ := Score.toJson_ok hcontent
    rw [String.toList_ofList] at hmem
    exact absurd (Json.clean_render _ 0 j _ hmem) (by decide)

/-- An export with these arguments comes to nothing: the score is not there, is not UTF-8, does not
compile or has no notes, or no MIDI file can be built of it. -/
inductive Fails (d : Directory) (a : Arguments) : Prop
  /-- There is no such file. -/
  | missing {path : String} (hpath : a.positional.head? = some path)
      (hfile : ∀ bytes, d.resolve path ≠ .ok (.file bytes))
  /-- The file cannot be read as UTF-8. -/
  | unreadable {path : String} (hpath : a.positional.head? = some path)
      (htext : d.text? path = none)
  /-- The text does not compile. -/
  | uncompiled {r : Request} {text : String} {f : Fault} (hr : Request.ofArguments a = .ok r)
      (htext : d.text? r.score = some text) (hf : r.compile text = .error f)
  /-- The score has no notes. -/
  | silent {r : Request} {text : String} {s : Score} (hr : Request.ofArguments a = .ok r)
      (htext : d.text? r.score = some text) (hs : r.compile text = .ok s) (hevents : s.events = [])
  /-- No MIDI file can be built of the score. -/
  | unbuilt {r : Request} {text : String} {s : Score} {f : Fault}
      (hr : Request.ofArguments a = .ok r) (htext : d.text? r.score = some text)
      (hs : r.compile text = .ok s) (hf : r.build s = .error f)

/-- An export that comes to nothing has no score that is there to be written. -/
theorem Fails.not_built {d : Directory} {a : Arguments} (h : Fails d a) {r : Request}
    (hr : r.Admitted d a) {s : Score} (hs : r.score? d = some s) (hevents : s.events ≠ [])
    (hbuild : ∃ b, r.build s = .ok b) : False := by
  -- each way of failing contradicts one of the hypotheses
  cases h with
  | missing hpath hfile =>
    cases hr.head?_positional.symm.trans hpath
    obtain ⟨bytes, hbytes⟩ := hr.exists_resolve
    exact hfile bytes hbytes
  | unreadable hpath htext =>
    cases hr.head?_positional.symm.trans hpath
    rw [Request.score?, htext] at hs
    cases hs
  | uncompiled hr' htext hf =>
    cases hr.request.symm.trans hr'
    rw [Request.score?_of_text htext, hf] at hs
    cases hs
  | silent hr' htext hs' hnone =>
    cases hr.request.symm.trans hr'
    rw [Request.score?_of_text htext, hs'] at hs
    cases hs
    exact hevents hnone
  | unbuilt hr' htext hs' hf =>
    cases hr.request.symm.trans hr'
    rw [Request.score?_of_text htext, hs'] at hs
    cases hs
    obtain ⟨b, hb⟩ := hbuild
    rw [hf] at hb
    cases hb

/-- The arguments ask for a score to be shown; it is there and compiles, and this is shown. -/
structure Renders (d : Directory) (a : Arguments) (r : Request) (text : String) (s : Score)
    (content : String) : Prop where
  /-- The arguments are accepted. -/
  admitted : r.Admitted d a
  /-- The text of the score. -/
  read : d.text? r.score = some text
  /-- It compiles. -/
  compiled : r.compile text = .ok s
  /-- The score can be shown in the form that is asked for. -/
  rendered : render r.format s = .ok content

namespace Renders

variable {d : Directory} {a a' : Arguments} {r : Request} {text content path : String} {s : Score}

theorem score? (h : Renders d a r text s content) : r.score? d = some s := by
  rw [Request.score?_of_text h.read, h.compiled]
  rfl

/-- With the path of an output the same is shown. -/
theorem addsOutput (h : Renders d a r text s content) (ha : a.AddsOutput path a') :
    Renders d a' { r with output? := some path } text s content where
  admitted := {
    request := by rw [Request.ofArguments_addsOutput ha, h.admitted.request]; rfl
    usable := h.admitted.usable
    check := by
      have hcheck := h.admitted.check
      rw [Request.check] at hcheck ⊢
      rw [ha.positional]
      exact hcheck }
  read := h.read
  compiled := h.compiled
  rendered := h.rendered

/-- What a run shows, and its exit code. -/
theorem run_compile (h : Renders d a r text s content) (clock : String) {args : List String}
    (hcalls : Calls args .compile a)
    (houtput : ∀ path, r.output? = some path → d.CanWrite (Path.normal path)) :
    r.Puts content { directory := d, clock } (run clock d args).session ∧
      (run clock d args).exitCode = if s.events = [] then 1 else 0 := by
  refine run_of_does (P := fun code u ↦ r.Puts content { directory := d, clock } u ∧
    code = if s.events = [] then 1 else 0) ?_
  refine .runProgram hcalls (fun u hu r' hr' ↦ ?_) fun e u _ _ hr ↦ absurd h.admitted (hr r)
  cases hr'.request.symm.trans h.admitted.request
  refine .runCompile ?_ h.rendered ?_ (fun v hv hevents ↦ ?_) fun v hv hevents ↦ ?_
  · rw [hu.directory]
    exact h.score?
  · rw [hu.directory]
    exact houtput
  · exact ⟨hv.congr hu ⟨rfl, rfl⟩, (if_neg hevents).symm⟩
  · exact ⟨hv.congr hu ⟨rfl, rfl⟩, (if_pos hevents).symm⟩

end Renders

/-- A failed export has changed no file by then. -/
theorem Fails.run_midi {d : Directory} {a : Arguments} (h : Fails d a) (clock : String)
    {args : List String} (hcalls : Calls args .midi a) :
    (run clock d args).exitCode ≠ 0 ∧ (run clock d args).session.directory = d := by
  refine run_of_does (P := fun code u ↦ code ≠ 0 ∧ u.directory = d) ?_
  refine .runProgram hcalls (fun u hu r hr ↦ ?_) fun e u hu hcode _ ↦ ⟨hcode, hu.directory⟩
  refine .runMidi (fun s b path v hs hevents hbuild ↦ ?_) fun e v hv hcode ↦ ?_
  · rw [hu.directory] at hs
    exact (h.not_built hr hs hevents ⟨b, hbuild⟩).elim
  · exact ⟨by rw [hcode]; exact Nat.one_ne_zero, hv.trans hu.directory⟩

/-- What is shown on standard output and what is shown in a file, of the same score. -/
structure SameOutput (d : Directory) (path : String) (s : Score) (o o' : Outcome) : Prop where
  /-- Without the path no file changes. -/
  unchanged : o.session.directory = d
  /-- With it one file is written, with the bytes of what is on standard output without it. -/
  written : d.write (Path.normal path) (Utf8.encode o.session.stdout.toList) =
    .ok o'.session.directory
  /-- These bytes are found under the path. -/
  found : o'.session.directory.resolve (Path.normal path) =
    .ok (.file (Utf8.encode o.session.stdout.toList))
  /-- The exit codes are the same. -/
  exitCode : o'.exitCode = o.exitCode
  /-- They say whether there are notes. -/
  success : o.exitCode = 0 ↔ s.events ≠ []

/-- Without the escape character, what goes to standard output is what goes to a file. -/
theorem Renders.sameOutput {d : Directory} {a a' : Arguments} {r : Request}
    {text content path : String} {s : Score} (h : Renders d a r text s content) (clock : String)
    {args args' : List String} (hcalls : Calls args .compile a) (hcalls' : Calls args' .compile a')
    (ha : a.AddsOutput path a') (htext : '\x1b' ∉ text.toList)
    (hcan : d.CanWrite (Path.normal path)) :
    SameOutput d path s (run clock d args) (run clock d args') := by
  have hnone := Request.output?_ofArguments ha.value?_output.1 h.admitted.request
  obtain ⟨hputs, hcode⟩ := h.run_compile clock hcalls fun path hsome ↦ by
    rw [hnone] at hsome
    cases hsome
  obtain ⟨hputs', hcode'⟩ := (h.addsOutput ha).run_compile clock hcalls' fun path' hsome ↦ by
    cases hsome
    exact hcan
  obtain ⟨hunchanged, hstdout⟩ := hputs.said hnone
  -- what is printed has no escape to lose, so it is what is written
  have hprinted : (run clock d args).session.stdout = content := by
    rw [hstdout, dropEscapes_of_not_mem (not_mem_render htext h.compiled h.rendered)]
    exact String.empty_append
  have hwritten := hputs'.written path rfl
  rw [← hprinted] at hwritten
  refine ⟨hunchanged, hwritten, Directory.resolve_write hwritten, hcode'.trans hcode.symm, ?_⟩
  rw [hcode]
  split
  case isTrue hevents => exact iff_of_false Nat.one_ne_zero (not_not_intro hevents)
  case isFalse hevents => exact iff_of_true rfl hevents

/-- The path of an output, right behind the name of the command. -/
theorem Calls.addsOutput {args : List String} {a : Arguments}
    (h : Calls ("compile" :: args) .compile a) (habsent : ∀ o ∈ a.options, o.1 ≠ .output)
    (path : String) :
    ∃ a', Calls ("compile" :: "-o" :: path :: args) .compile a' ∧ a.AddsOutput path a' := by
  obtain ⟨hparse, hhelp⟩ := calls_compile_iff.mp h
  obtain ⟨a', hparse', hadds⟩ := Arguments.addsOutput_of_parse hparse habsent path
  refine ⟨a', calls_compile_iff.mpr ⟨hparse', ?_⟩, hadds⟩
  rw [hadds.count_of_ne (by decide), hhelp]

/-- **Files behind a run.**  An export that comes to nothing has changed no file and says so by its
exit code.  A score without the escape character that can be shown is the same on standard output
and in a file, and the exit code is zero if and only if it has notes.  This is so wherever the path
of the output stands among the arguments, and in particular if it stands in front of them. -/
theorem directory_of_run (clock : String) (d : Directory) :
    (∀ args a, Calls args .midi a → Fails d a →
      (run clock d args).exitCode ≠ 0 ∧ (run clock d args).session.directory = d) ∧
    (∀ args args' a a' r path text s content, Calls args .compile a → Calls args' .compile a' →
      a.AddsOutput path a' → Renders d a r text s content → '\x1b' ∉ text.toList →
      d.CanWrite (Path.normal path) →
      SameOutput d path s (run clock d args) (run clock d args')) ∧
    ∀ args a r path text s content, Calls ("compile" :: args) .compile a →
      (∀ o ∈ a.options, o.1 ≠ .output) → Renders d a r text s content → '\x1b' ∉ text.toList →
      d.CanWrite (Path.normal path) →
      SameOutput d path s (run clock d ("compile" :: args))
        (run clock d ("compile" :: "-o" :: path :: args)) := by
  refine ⟨?_, ?_, ?_⟩
  · intro args a hcalls hfails
    exact hfails.run_midi clock hcalls
  · intro args args' a a' r path text s content hcalls hcalls' ha hrenders htext hcan
    exact hrenders.sameOutput clock hcalls hcalls' ha htext hcan
  · intro args a r path text s content hcalls habsent hrenders htext hcan
    obtain ⟨a', hcalls', ha⟩ := hcalls.addsOutput habsent path
    exact hrenders.sameOutput clock hcalls hcalls' ha htext hcan

/-- A note. -/
def oneNote : String := "m 1\np: c4"

/-- A note, under a title with a letter that has no byte in a MIDI file. -/
def oneNoteOfOhm : String := "meta \x7b title: \"Ω\" \x7d\nm 1\np: c4"

/-- A folder with these two scores. -/
def twoScores : Directory where
  nodes := ((∅ : OrderedMap Node).put "a" (.file (Utf8.encode oneNote.toList))).put "b"
    (.file (Utf8.encode oneNoteOfOhm.toList))

/-- The first score is shown in a file, and the second one is not exported. -/
theorem directory_of_run_twoScores : ∃ s content,
    Calls ["midi", "b"] .midi ⟨[], ["b"]⟩ ∧ Fails twoScores ⟨[], ["b"]⟩ ∧
    (run "" twoScores ["midi", "b"]).exitCode ≠ 0 ∧
    (run "" twoScores ["midi", "b"]).session.directory = twoScores ∧
    Calls ["compile", "a"] .compile ⟨[], ["a"]⟩ ∧
    Calls ["compile", "-o", "c", "a"] .compile ⟨[(.output, "c")], ["a"]⟩ ∧
    Arguments.AddsOutput "c" ⟨[], ["a"]⟩ ⟨[(.output, "c")], ["a"]⟩ ∧
    Renders twoScores ⟨[], ["a"]⟩ { score := "a" } oneNote s content ∧
    '\x1b' ∉ oneNote.toList ∧ twoScores.CanWrite (Path.normal "c") ∧
    SameOutput twoScores "c" s (run "" twoScores ["compile", "a"])
      (run "" twoScores ["compile", "-o", "c", "a"]) := by
  have hmidi : Calls ["midi", "b"] .midi ⟨[], ["b"]⟩ :=
    ⟨⟨⟨[], ["midi", "b"]⟩, "midi", ["b"], by decide +kernel, rfl, rfl, rfl, rfl,
      by decide +kernel⟩, rfl⟩
  have hfails : Fails twoScores ⟨[], ["b"]⟩ := by
    obtain ⟨s, hs, hbuild⟩ := exists_ok_of_any
      (x := ({ score := "b" } : Request).compile oneNoteOfOhm)
      (f := fun s ↦ !(({ score := "b" } : Request).build s).toOption.isSome) (by decide +kernel)
    cases hf : ({ score := "b" } : Request).build s with
    | ok b =>
      rw [hf] at hbuild
      cases hbuild
    | error f => exact .unbuilt (r := { score := "b" }) (by rfl) (by decide +kernel) hs hf
  have hcalls : Calls ["compile", "a"] .compile ⟨[], ["a"]⟩ :=
    ⟨⟨⟨[], ["compile", "a"]⟩, "compile", ["a"], by decide +kernel, rfl, rfl, rfl, rfl,
      by decide +kernel⟩, rfl⟩
  have hcalls' : Calls ["compile", "-o", "c", "a"] .compile ⟨[(.output, "c")], ["a"]⟩ :=
    ⟨⟨⟨[], ["compile", "-o", "c", "a"]⟩, "compile", ["-o", "c", "a"], by decide +kernel, rfl, rfl,
      rfl, rfl, by decide +kernel⟩, rfl⟩
  have hadds : Arguments.AddsOutput "c" ⟨[], ["a"]⟩ ⟨[(.output, "c")], ["a"]⟩ :=
    ⟨rfl, ⟨[], [], rfl, rfl⟩, fun _ h ↦ absurd h List.not_mem_nil⟩
  obtain ⟨s, hs, hlisting⟩ := exists_ok_of_any
    (x := ({ score := "a" } : Request).compile oneNote)
    (f := fun s ↦ s.listing.toOption.isSome) (by decide +kernel)
  obtain ⟨content, hcontent⟩ := exists_ok hlisting
  have hrenders : Renders twoScores ⟨[], ["a"]⟩ { score := "a" } oneNote s content :=
    ⟨⟨by rfl, by decide, by rfl⟩, by decide +kernel, hs, hcontent⟩
  have htext : '\x1b' ∉ oneNote.toList := by decide
  have hcan : twoScores.CanWrite (Path.normal "c") := ⟨by decide, ["c"], by rfl⟩
  obtain ⟨hexport, hshow, -⟩ := directory_of_run "" twoScores
  obtain ⟨hcode, hdirectory⟩ := hexport _ _ hmidi hfails
  exact ⟨s, content, hmidi, hfails, hcode, hdirectory, hcalls, hcalls', hadds, hrenders, htext,
    hcan, hshow _ _ _ _ _ _ _ _ _ hcalls hcalls' hadds hrenders htext hcan⟩

end CommandLine

end TextScore
