import TextScore.Proofs.Repeat.Room
import TextScore.Proofs.Timeline.Voice
import TextScore.Proofs.Token.Rejoined

/-!
# A staff line goes on

What a staff knows at the end of a line it knows at the start of the next one: its clock, its
barlines, its durations and octaves.  So a staff line can be broken wherever a token ends, as long
as the break does not cut a bracket or an annotation in two, and nothing is heard of it.

Two facts meet here.  The text of a line is cut at the break as it would be at any blank outside
brackets, which is about tokens and is proved in `TextScore.Proofs.Token.Rejoined`.  And the
instrument goes on in its second turn where it stood in the first, which is about the assembly: what
it puts away at the end of a turn is what it takes up again.

## What is here

* `Assembly.playStaff_append` — an instrument plays some tokens in one turn or in two.
* `IsVerbatim.contentTokens` — a text without references and repeats is played as it is.
* `Assembly.continued_playLine` — a staff line may be broken at a space.

References and repeats are excluded since they are written out before the text is cut into tokens,
and a repeat that stands around the break would be cut in two.
-/

set_option autoImplicit false

namespace TextScore

open Text

/-! ## One turn or two

The equation is one of runs, faults included: if the first turn fails then so does the long one, and
in the same way. -/

/-- Of two turns of an instrument the ensemble remembers the second one. -/
@[simp] theorem Ensemble.afterTurn_afterTurn (e : Ensemble) (id : String) (st st' : Staff) :
    (e.afterTurn id st).afterTurn id st' = e.afterTurn id st' := by
  have hplayer : (e.afterTurn id st).instruments.get? id = some (e.player id) :=
    e.get?_enrol_self id
  have hknown : (e.afterTurn id st).enrol id = e.afterTurn id st := by
    rw [enrol, resolve, hplayer]
  rw [afterTurn, hknown]
  simp only [afterTurn, setStaff, OrderedMap.put_put]

namespace Assembly

@[simp] theorem afterTurn_afterTurn (a : Assembly) (id : String) (p q : Playing) :
    (a.afterTurn id p).afterTurn id q = a.afterTurn id q := by
  simp [afterTurn]

/-- In its next turn an instrument goes on where it stands. -/
theorem playing_afterTurn (a : Assembly) (start : Float) (id : String) (p : Playing) :
    (⟨(a.afterTurn id p).ensemble.memory id, (a.afterTurn id p).position start id,
      (a.afterTurn id p).events⟩ : Playing) = p := by
  rw [position, afterTurn, Ensemble.memory_afterTurn_self, OrderedMap.get?_put_self]
  rfl

/-- An instrument plays some tokens in one turn or in two. -/
theorem playStaff_append (line line₁ line₂ : Nat) (b : Block) (start : Float) (ts us : List Token)
    (a : Assembly) (id : String) :
    (playStaff line b start (ts ++ us) a id).value = (playStaff line₁ b start ts a id).value >>=
      fun a ↦ (playStaff line₂ b start us a id).value := by
  have hplayer (p : Playing) :
      (a.afterTurn id p).ensemble.player id = a.ensemble.player id :=
    a.ensemble.player_afterTurn id p.staff id
  cases hm : b.meter start with
  | error f => simp only [playStaff_value, hm, error_bind]
  | ok m =>
    simp only [playStaff_value, hm, ok_bind, Playing.play_append, bind_assoc, pure_bind, hplayer,
      playing_afterTurn, afterTurn_afterTurn]

end Assembly

/-! ## Texts that are played as they are -/

/-- The text is one line without references to fragments and without repeats. -/
def IsVerbatim (s : List Char) : Prop := ∀ c ∈ s, c ≠ '\n' ∧ c ≠ '$' ∧ c ≠ '{'

instance : DecidablePred IsVerbatim := List.decidableBAll _

namespace IsVerbatim

variable {s : List Char}

theorem trim (h : IsVerbatim s) : IsVerbatim (Text.trim s) := fun c hc ↦ h c (mem_of_mem_trim hc)

theorem oneLine (h : IsVerbatim s) : '\n' ∉ s := fun hc ↦ (h _ hc).1 rfl

theorem append_space {t : List Char} (hs : IsVerbatim s) (ht : IsVerbatim t) :
    IsVerbatim (s ++ ' ' :: t) :=
  List.forall_mem_append.mpr ⟨hs, List.forall_mem_cons.mpr ⟨by decide, ht⟩⟩

/-- There is nothing to put in. -/
theorem expand (h : IsVerbatim s) (macros : Macro.Table) : macros.expand s = (s, []) := by
  have hnone : found (Macro.Reference.recogniser.pieces s) = [] := by
    refine (Recogniser.found_pieces_eq_nil_iff fun _ _ ↦ rfl).mpr fun t ht ↦ ?_
    cases hread : Macro.Reference.read? t with
    | none => exact hread
    | some r =>
      have hdollar : '$' ∈ t := Macro.Reference.read?_eq hread ▸ List.mem_cons_self
      exact absurd rfl (h _ (ht.subset hdollar)).2.1
  rw [Macro.Table.expand, hnone, Recogniser.pieces,
    Recogniser.fill_pieces_of_found_eq_nil _ false hnone]
  rfl

/-- The text is played as it is. -/
theorem contentTokens (h : IsVerbatim s) (macros : Macro.Table) :
    contentTokens macros s = .ok (tokenize s) := by
  have hopenings : Repeat.openings s = 0 :=
    List.count_eq_zero_of_not_mem fun hc ↦ (h _ hc).2.2 rfl
  rw [TextScore.contentTokens, h.expand, Repeat.expand_of_innermost_eq_nil
    (Repeat.innermost_eq_nil_of_openings hopenings)]
  rfl

end IsVerbatim

/-! ## Lines

The line numbers of the three lines may be anything; only reports have them. -/

namespace Assembly

variable {id x y : List Char}

theorem playLine_of_verbatim (hne : id ≠ []) (hword : ∀ c ∈ id, isWord c = true)
    (hx : IsVerbatim x) (macros : Macro.Table) (b : Block) (start : Float) (line : Nat)
    (a : Assembly) :
    (playLine macros b start a (line, Assignment.lineFor id x)).value =
      (playStaff line b start (tokenize (trim x)) a (String.ofList id)).value := by
  rw [playLine_lineFor hne hword hx.oneLine,
    Noted.value_bind fun _ ↦ appends_playStaff _ _ _ _ _ _, tokens_value, hx.trim.contentTokens]
  rfl

/-- One line, or two lines of which the second one goes on where the first one ends. -/
theorem playLine_append_space (hdepth : (Cutting.start.run x).depth = 0)
    (hclosed : ∀ t ∈ splitTokens x, IsClosed t) (hx : IsVerbatim x) (hy : IsVerbatim y)
    (hne : id ≠ []) (hword : ∀ c ∈ id, isWord c = true) (macros : Macro.Table) (b : Block)
    (start : Float) (a : Assembly) (n n₁ n₂ : Nat) :
    (playLine macros b start a (n, Assignment.lineFor id (x ++ ' ' :: y))).value =
      (playLine macros b start a (n₁, Assignment.lineFor id x)).value >>= fun a ↦
        (playLine macros b start a (n₂, Assignment.lineFor id y)).value := by
  have htokens : tokenize (trim (x ++ ' ' :: y)) = tokenize (trim x) ++ tokenize (trim y) := by
    rw [tokenize, splitTokens_trim_append_space hdepth hclosed, List.map_append]
    rfl
  simp only [playLine_of_verbatim hne hword (hx.append_space hy), playLine_of_verbatim hne hword hx,
    playLine_of_verbatim hne hword hy, htokens, playStaff_append n n₁ n₂]

/-- **A staff line may be broken** at a space behind a text in which no bracket and no annotation is
left open.  The tokens are the same.  From every state of a block the two lines lead to the state to
which the one line leads, with the same notes, and on every staff with the same clock, the same
barlines and the same memory; or they fail alike.  So does the block, whatever its other lines. -/
theorem continued_playLine (hdepth : (Cutting.start.run x).depth = 0)
    (hclosed : ∀ t ∈ splitTokens x, IsClosed t) (hx : IsVerbatim x) (hy : IsVerbatim y)
    (hne : id ≠ []) (hword : ∀ c ∈ id, isWord c = true) :
    splitTokens (x ++ ' ' :: y) = splitTokens x ++ splitTokens y ∧
      ∀ (macros : Macro.Table) (b : Block) (start : Float) (a : Assembly) (n n₁ n₂ : Nat),
        (playLine macros b start a (n, Assignment.lineFor id (x ++ ' ' :: y))).value =
          ((playLine macros b start a (n₁, Assignment.lineFor id x)).value >>= fun a ↦
            (playLine macros b start a (n₂, Assignment.lineFor id y)).value) ∧
        ∀ before after : List (Nat × List Char),
          (playBlock macros a { b with lines := before ++
              (n, Assignment.lineFor id (x ++ ' ' :: y)) :: after } start).value =
            (playBlock macros a { b with lines := before ++
              (n₁, Assignment.lineFor id x) :: (n₂, Assignment.lineFor id y) :: after }
                start).value := by
  have hbreak := playLine_append_space hdepth hclosed hx hy hne hword
  refine ⟨splitTokens_append_space hdepth hclosed y, fun macros b start a n n₁ n₂ ↦
    ⟨hbreak macros b start a n n₁ n₂, fun before after ↦ ?_⟩⟩
  have hblock (ls : List (Nat × List Char)) :
      (playBlock macros a { b with lines := ls } start).value =
        ls.foldlM (fun a l ↦ (playLine macros b start a l).value) { a with positions := ∅ } :=
    Noted.value_foldlM (appends_playLine macros b start) ls _
  simp only [hblock, List.foldlM_append, List.foldlM_cons, hbreak macros b start _ n n₁ n₂,
    bind_assoc]

/-- A line that is broken behind a chord, with an annotation on each side of the break. -/
theorem continued_playLine_chord :
    splitTokens "<p> [c e]:8 d <f> | e".toList =
        splitTokens "<p> [c e]:8".toList ++ splitTokens "d <f> | e".toList ∧
      ∀ a : Assembly,
        (playLine ∅ ⟨1, 1, 120, ⟨4, 4⟩, []⟩ 0 a (1, "va: <p> [c e]:8 d <f> | e".toList)).value =
          ((playLine ∅ ⟨1, 1, 120, ⟨4, 4⟩, []⟩ 0 a (1, "va: <p> [c e]:8".toList)).value >>= fun a ↦
            (playLine ∅ ⟨1, 1, 120, ⟨4, 4⟩, []⟩ 0 a (2, "va: d <f> | e".toList)).value) := by
  have hbreak := continued_playLine (x := "<p> [c e]:8".toList) (y := "d <f> | e".toList)
    (by decide +kernel) (by decide +kernel) (by decide +kernel) (by decide +kernel)
    (List.cons_ne_nil 'v' ['a']) (List.all_eq_true.mp (by decide +kernel))
  exact ⟨hbreak.1, fun a ↦ (hbreak.2 ∅ ⟨1, 1, 120, ⟨4, 4⟩, []⟩ 0 a 1 1 2).1⟩

end Assembly

end TextScore
