import TextScore.Proofs.Measure.Assignment
import TextScore.Proofs.Measure.Clause
import TextScore.Proofs.Noted
import TextScore.Proofs.Text.Class

/-!
# What holds in a block

A tempo or a time signature holds for the block in which it stands, and from there on until another
one is set.  So the tempo of a block is the latest one set before the next block is opened, and the
lines of a block are the staff lines between its measure header and the next one.

A directive reaches in both directions.  It changes the block that is open, with the lines that are
in it already, and it is what the next block begins with.  In terms of clauses this is one search:
of the clauses up to the next header, before the block or within it, the latest one that sets a
tempo.  The reading does not search but carries the latest value and rewrites the open block with
it, and that the open block always has the values that hold is the invariant.

## What is here

* `tempoBehind`, `timeSignatureBehind` — what holds behind some clauses.
* `blocksBehind` — the blocks that clauses describe, each one read off the clauses before the next
  measure header.
* `Segmenting.blocks_foldl_after` — clauses that take effect make just these blocks.
* `Body.lastActive_segment` — the blocks of a text, and what is reported on the way.

The reference `blocksBehind` has the whole list of clauses at hand, and a block looks ahead to the
next header.  The reading never looks ahead.
-/

set_option autoImplicit false

namespace TextScore

open Text Number

/-- The tempo behind some clauses: the latest one that was set, or else the default. -/
def tempoBehind (d : Defaults) (past : List Clause) : Float :=
  ((past.filterMap Clause.tempo?).getLast?).getD d.tempo

/-- The time signature behind some clauses: the latest one that was set, or else the default. -/
def timeSignatureBehind (d : Defaults) (past : List Clause) : TimeSignature :=
  ((past.filterMap Clause.timeSignature?).getLast?).getD d.timeSignature

/-- The blocks that some clauses describe, behind others.  Every measure header opens a block.  The
clauses up to the next header are its own: among them are its lines, and what holds behind them
holds for the whole block. -/
def blocksBehind (d : Defaults) (past : List Clause) : List Clause → List Block
  | [] => []
  | .header line h :: cs =>
    let own := cs.takeWhile (!·.isHeader)
    { first := h.firstNumber
      last := (max h.firstNumber h.lastNumber : Nat)
      tempo := tempoBehind d (past ++ .header line h :: own)
      timeSignature := timeSignatureBehind d (past ++ .header line h :: own)
      lines := own.filterMap Clause.staffLine? } :: blocksBehind d (past ++ [.header line h]) cs
  | c :: cs => blocksBehind d (past ++ [c]) cs

theorem blocksBehind_cons_of_not (d : Defaults) (past : List Clause) {c : Clause}
    (h : c.isHeader = false) (cs : List Clause) :
    blocksBehind d past (c :: cs) = blocksBehind d (past ++ [c]) cs := by
  cases c with
  | header line header => cases h
  | directive line text => rfl
  | plain line text => rfl

/-- The lines of all blocks are the staff lines behind the first measure header. -/
theorem flatMap_lines_blocksBehind (d : Defaults) (past cs : List Clause) :
    (blocksBehind d past cs).flatMap Block.lines =
      (cs.dropWhile (!·.isHeader)).filterMap Clause.staffLine? := by
  induction cs generalizing past with
  | nil => rfl
  | cons c cs ih =>
    cases hc : c.isHeader with
    | false =>
      rw [blocksBehind_cons_of_not d past hc, ih, List.dropWhile_cons_of_pos (by rw [hc]; rfl)]
    | true =>
      rw [List.dropWhile_cons_of_neg (by rw [hc]; exact Bool.false_ne_true)]
      cases c with
      | directive line text => cases hc
      | plain line text => cases hc
      | header line header =>
        rw [blocksBehind, List.flatMap_cons, ih, ← List.filterMap_append,
          List.takeWhile_append_dropWhile]
        rfl

/-- A measure header opens a block, behind as many others as there are headers before it. -/
theorem getElem?_blocksBehind_header (d : Defaults) (past cs ds : List Clause) (line : Nat)
    (h : MeasureHeader) :
    ∃ b, (blocksBehind d past (cs ++ .header line h :: ds))[cs.countP Clause.isHeader]? = some b ∧
      b.first = h.firstNumber ∧ b.last = (max h.firstNumber h.lastNumber : Nat) := by
  induction cs generalizing past with
  | nil => exact ⟨_, rfl, rfl, rfl⟩
  | cons c cs ih =>
    cases hc : c.isHeader with
    | false =>
      rw [List.cons_append, blocksBehind_cons_of_not d past hc,
        List.countP_cons_of_neg (by rw [hc]; exact Bool.false_ne_true)]
      exact ih _
    | true =>
      rw [List.countP_cons_of_pos hc]
      cases c with
      | directive line text => cases hc
      | plain line text => cases hc
      | header line' header => exact ih _

/-- A staff line belongs to the block that the latest header before it opens. -/
theorem getElem?_blocksBehind_staffLine (d : Defaults) (past ds : List Clause)
    {l : Nat × List Char} {c : Clause} (hl : c.staffLine? = some l) {cs : List Clause} {n : Nat}
    (hn : cs.countP Clause.isHeader = n + 1) :
    ∃ b, (blocksBehind d past (cs ++ c :: ds))[n]? = some b ∧ l ∈ b.lines := by
  have hplain : c.isHeader = false := by
    cases c with
    | header line header => cases hl
    | directive line text => rfl
    | plain line text => rfl
  induction cs generalizing past n with
  | nil => cases hn
  | cons a cs ih =>
    cases ha : a.isHeader with
    | false =>
      rw [List.countP_cons_of_neg (by rw [ha]; exact Bool.false_ne_true)] at hn
      rw [List.cons_append, blocksBehind_cons_of_not d past ha]
      exact ih _ hn
    | true =>
      rw [List.countP_cons_of_pos ha, Nat.add_right_cancel_iff] at hn
      cases a with
      | directive line text => cases ha
      | plain line text => cases ha
      | header line header =>
        cases n with
        | succ n => exact ih _ hn
        | zero =>
          -- No header stands between this one and the staff line.
          refine ⟨_, rfl, ?_⟩
          have hown : ∀ a ∈ cs, (!a.isHeader) = true := by
            intro a ha
            have hnot := List.countP_eq_zero.mp hn a ha
            rwa [Bool.not_eq_true, ← Bool.not_eq_true'] at hnot
          refine List.mem_filterMap.mpr ⟨c, ?_, hl⟩
          rw [List.append_eq]
          rw [List.takeWhile_append_of_pos hown, List.takeWhile_cons_of_pos (by rw [hplain]; rfl)]
          exact List.mem_append_right _ List.mem_cons_self

theorem tempoBehind_concat (d : Defaults) (past : List Clause) (c : Clause) :
    tempoBehind d (past ++ [c]) = c.tempo?.getD (tempoBehind d past) := by
  rw [tempoBehind, getLast?_filterMap_concat]
  cases c.tempo? <;> rfl

theorem timeSignatureBehind_concat (d : Defaults) (past : List Clause) (c : Clause) :
    timeSignatureBehind d (past ++ [c]) = c.timeSignature?.getD (timeSignatureBehind d past) := by
  rw [timeSignatureBehind, getLast?_filterMap_concat]
  cases c.timeSignature? <;> rfl

namespace Segmenting

/-- What is known of the body is what the clauses so far say, and the current block follows. -/
structure Mirrors (d : Defaults) (past : List Clause) (g : Segmenting) : Prop where
  /-- The tempo. -/
  tempo : g.tempo = tempoBehind d past
  /-- The time signature. -/
  timeSignature : g.timeSignature = timeSignatureBehind d past
  /-- The current block. -/
  block : ∀ b ∈ g.current?, b.tempo = g.tempo ∧ b.timeSignature = g.timeSignature

/-- Before all clauses the defaults hold. -/
theorem mirrors_start (d : Defaults) :
    Mirrors d [] { tempo := d.tempo, timeSignature := d.timeSignature } :=
  ⟨rfl, rfl, fun _ hb ↦ by cases hb⟩

theorem Mirrors.after {d : Defaults} {past : List Clause} {g : Segmenting} (h : Mirrors d past g)
    (c : Clause) : Mirrors d (past ++ [c]) (g.after c) := by
  cases c with
  | directive line text =>
    refine ⟨?_, ?_, ?_⟩
    · rw [tempoBehind_concat, ← h.tempo]
      rfl
    · rw [timeSignatureBehind_concat, ← h.timeSignature]
      rfl
    · intro b hb
      -- a directive hands on both to the current block
      obtain ⟨b₀, -, rfl⟩ := Option.map_eq_some_iff.mp hb
      exact ⟨rfl, rfl⟩
  | header line header =>
    refine ⟨?_, ?_, ?_⟩
    · rw [tempoBehind_concat, ← h.tempo]
      rfl
    · rw [timeSignatureBehind_concat, ← h.timeSignature]
      rfl
    · rintro b ⟨⟩
      exact ⟨rfl, rfl⟩
  | plain line text =>
    refine ⟨?_, ?_, ?_⟩
    · rw [tempoBehind_concat, ← h.tempo]
      rfl
    · rw [timeSignatureBehind_concat, ← h.timeSignature]
      rfl
    · intro b hb
      obtain ⟨b₀, hb₀, rfl⟩ := Option.map_eq_some_iff.mp hb
      exact h.block b₀ hb₀

theorem Mirrors.foldl_after {d : Defaults} {past : List Clause} {g : Segmenting}
    (h : Mirrors d past g) (cs : List Clause) :
    Mirrors d (past ++ cs) (cs.foldl Segmenting.after g) := by
  induction cs generalizing past g with
  | nil => rwa [List.append_nil]
  | cons c cs ih =>
    rw [List.append_cons]
    exact ih (h.after c)

end Segmenting

/-- A block with more clauses of its own. -/
def Block.grow (d : Defaults) (past own : List Clause) (b : Block) : Block :=
  { b with
    tempo := tempoBehind d (past ++ own)
    timeSignature := timeSignatureBehind d (past ++ own)
    lines := b.lines ++ own.filterMap Clause.staffLine? }

theorem Block.grow_cons (d : Defaults) (past own : List Clause) (c : Clause) (b : Block) :
    b.grow d past (c :: own) =
      { b with lines := b.lines ++ c.staffLine?.toList }.grow d (past ++ [c]) own := by
  rw [grow, grow, List.append_cons]
  cases h : c.staffLine? <;> simp [h]

namespace Segmenting

/-- Without clauses of its own the current block is as it is. -/
theorem Mirrors.grow_nil {d : Defaults} {past : List Clause} {g : Segmenting}
    (h : Mirrors d past g) : g.current?.map (Block.grow d past []) = g.current? := by
  cases hg : g.current? with
  | none => rfl
  | some b =>
    obtain ⟨htempo, htime⟩ := h.block b hg
    rw [Option.map_some, Block.grow, List.append_nil, List.filterMap_nil, List.append_nil,
      ← h.tempo, ← h.timeSignature, ← htempo, ← htime]

/-- A clause that is no measure header belongs to the current block. -/
theorem grow_after (d : Defaults) (past own : List Clause) (g : Segmenting) {c : Clause}
    (h : c.isHeader = false) :
    (g.after c).closed = g.closed ∧
      (g.after c).current?.map (Block.grow d (past ++ [c]) own) =
        g.current?.map (Block.grow d past (c :: own)) := by
  have hgrow : Block.grow d past (c :: own) = fun b ↦ _ := funext fun b ↦ b.grow_cons d past own c
  rw [hgrow]
  cases c with
  | header line header => cases h
  | directive line text =>
    refine ⟨rfl, ?_⟩
    show (g.current?.map _).map _ = _
    rw [Option.map_map]
    refine congrArg (Option.map · g.current?) (funext fun b ↦ ?_)
    simp [Block.grow, Clause.staffLine?]
  | plain line text =>
    refine ⟨rfl, ?_⟩
    show (g.current?.map _).map _ = _
    rw [Option.map_map]
    rfl

/-- Clauses that take effect give the current block all clauses before the next measure header, and
make a block of every header. -/
theorem blocks_foldl_after {d : Defaults} {past : List Clause} {g : Segmenting}
    (h : Mirrors d past g) (cs : List Clause) :
    (cs.foldl after g).blocks =
      g.closed ++ (g.current?.map (Block.grow d past (cs.takeWhile (!·.isHeader)))).toList ++
        blocksBehind d past cs := by
  -- the current block takes clauses up to the next header, which closes it and opens another one
  induction cs generalizing past g with
  | nil =>
    rw [List.takeWhile_nil, h.grow_nil, blocksBehind, List.append_nil]
    rfl
  | cons c cs ih =>
    rw [List.foldl_cons, ih (h.after c)]
    cases hc : c.isHeader with
    | false =>
      obtain ⟨hclosed, hcurrent⟩ := grow_after d past (cs.takeWhile (!·.isHeader)) g hc
      rw [List.takeWhile_cons_of_pos (by rw [hc]; rfl), blocksBehind_cons_of_not d past hc,
        hclosed, hcurrent]
    | true =>
      rw [List.takeWhile_cons_of_neg (by rw [hc]; exact Bool.false_ne_true), h.grow_nil]
      cases c with
      | directive line text => cases hc
      | plain line text => cases hc
      | header line header =>
        rw [blocksBehind, List.append_cons]
        show (g.closed ++ g.current?.toList) ++ _ ++ _ = _
        rw [List.append_assoc]
        simp [after, Block.grow]

end Segmenting

/-! ## Written measure headers

The two forms of a header, as they are written, are read as what they say.  A number in front of
what could be the rest of a range is the first one of the range; what follows a header has to start
with a blank, and it stays on the line. -/

namespace MeasureHeader

variable {keyword n m mark rest : List Char}

/-- A header starts with `measure` or `m`, and a blank. -/
theorem dropKeyword_written (hkeyword : keyword = "measure".toList ∨ keyword = "m".toList)
    (hn : IsNumeral n) (s : List Char) :
    dropKeyword (keyword ++ ' ' :: (n ++ s)) = some (n ++ s) := by
  have hblanks : dropBlanks? (' ' :: (n ++ s)) = some (n ++ s) := by
    have hblank : isBlank ' ' = true := by decide
    rw [dropBlanks?, List.head?_cons, Option.any_some, if_pos hblank,
      List.dropWhile_cons_of_pos hblank, dropWhile_isBlank_eq_self (hn.isBlank_head? s)]
  rcases hkeyword with rfl | rfl
  · rw [dropKeyword, dropKeyword?_append, Option.bind_some, hblanks, Option.some_or]
  · have hnone : dropKeyword? "measure".toList ("m".toList ++ ' ' :: (n ++ s)) = none := by
      simp [dropKeyword?, isSpelling]
    rw [dropKeyword, hnone, Option.bind_none, Option.none_or, dropKeyword?_append,
      Option.bind_some, hblanks]

theorem ends_isDigit (h : ends rest = true) : ∀ c ∈ rest.head?, isDigit c = false := by
  intro c hc
  cases rest with
  | nil => cases hc
  | cons d rest =>
    cases hc
    by_contra hdigit
    have hblank : isBlank c = true := by simpa [ends] using h
    rw [isBlank_of_isDigit (Bool.not_eq_false _ ▸ hdigit)] at hblank
    exact Bool.false_ne_true hblank

/-- A header goes no further than its line. -/
theorem read?_of_front? {s : List Char} {h : MeasureHeader} (hfront : front? s = some h) :
    read? s = if '\n' ∈ h.rest then none else some h := by
  rw [read?, hfront]
  by_cases hbreak : '\n' ∈ h.rest <;> simp [Option.filter, hbreak]

/-- A header with one number, if what follows is not the rest of a range. -/
theorem front?_single (hkeyword : keyword = "measure".toList ∨ keyword = "m".toList)
    (hn : IsNumeral n) (hrest : ends rest = true) (hlast : readLast? rest = none) :
    front? (keyword ++ ' ' :: (n ++ rest)) = some ⟨n, none, rest⟩ := by
  obtain ⟨htake, hdrop⟩ := hn.takeWhile (ends_isDigit hrest)
  rw [front?, dropKeyword_written hkeyword hn]
  show (if _ then _ else _) = _
  rw [htake, hdrop, if_neg (by rw [List.isEmpty_iff]; exact hn.ne_nil), hlast]
  exact if_pos hrest

/-- A header with a range: two numbers with two points or a hyphen between them. -/
theorem front?_range (hkeyword : keyword = "measure".toList ∨ keyword = "m".toList)
    (hn : IsNumeral n) (hm : IsNumeral m) (hmark : mark = "..".toList ∨ mark = "-".toList)
    (hrest : ends rest = true) :
    front? (keyword ++ ' ' :: (n ++ (mark ++ (m ++ rest)))) = some ⟨n, some m, rest⟩ := by
  -- the mark ends the first number, also with blanks in front of it
  have hmark' : (∀ c ∈ (mark ++ (m ++ rest)).head?, isDigit c = false) ∧
      dropRangeMark? ((mark ++ (m ++ rest)).dropWhile isBlank) = some (m ++ rest) := by
    rcases hmark with rfl | rfl
    all_goals
      refine ⟨?_, ?_⟩
      · rintro c ⟨⟩
        decide +kernel
      · rw [dropWhile_isBlank_eq_self]
        · rfl
        · rintro c ⟨⟩
          decide
  obtain ⟨htake, hdrop⟩ := hn.takeWhile hmark'.1
  obtain ⟨htake', hdrop'⟩ := hm.takeWhile (ends_isDigit hrest)
  have hlast : readLast? (mark ++ (m ++ rest)) = some (m, rest) := by
    rw [readLast?, hmark'.2]
    show (if _ then _ else _) = _
    rw [dropWhile_isBlank_eq_self (hm.isBlank_head? rest), htake', hdrop', hrest]
    exact if_neg (by simpa using hm.ne_nil)
  rw [front?, dropKeyword_written hkeyword hn]
  show (if _ then _ else _) = _
  rw [htake, hdrop, if_neg (by rw [List.isEmpty_iff]; exact hn.ne_nil), hlast]

end MeasureHeader

/-! ## The blocks of a text

A text has a body unless a numeral is too long to be read; everything else that is odd in it is
reported and passed over. -/

namespace Body

theorem segment_value (defaults : Defaults) (ls : List (Nat × List Char)) :
    (segment defaults ls).value =
      (Segmenting.run { tempo := defaults.tempo, timeSignature := defaults.timeSignature }
        (Clause.ofLines false ls)).map fun g ↦
          ⟨g.blocks, g.title?.map String.ofList, g.composer?.map String.ofList⟩ := by
  rw [segment, Noted.value_bind fun _ ↦ .pure _, Segmenting.foldlM_readLine_value]
  cases Segmenting.run _ (Clause.ofLines false ls) <;> rfl

/-- A text has a body if no numeral in it is too long. -/
theorem isReadable_of_segment {defaults : Defaults} {ls : List (Nat × List Char)} {body : Body}
    (h : (segment defaults ls).value = .ok body) :
    (Clause.ofLines false ls).all Clause.isReadable = true := by
  rw [segment_value] at h
  obtain ⟨g, hg, -⟩ := map_eq_ok h
  exact (Segmenting.run_ok hg).1

/-- The blocks of a body are those that its clauses describe. -/
theorem blocks_eq {defaults : Defaults} {ls : List (Nat × List Char)} {body : Body}
    (h : (segment defaults ls).value = .ok body) :
    body.blocks = blocksBehind defaults [] (Clause.ofLines false ls) := by
  rw [segment_value] at h
  obtain ⟨g, hg, rfl⟩ := map_eq_ok h
  obtain ⟨-, rfl⟩ := Segmenting.run_ok hg
  exact Segmenting.blocks_foldl_after (Segmenting.mirrors_start defaults) _

/-- What is reported of a body is reported of its clauses. -/
theorem segment_reports {defaults : Defaults} {ls : List (Nat × List Char)}
    (h : (Clause.ofLines false ls).all Clause.isReadable = true) :
    (segment defaults ls).reports = Clause.allProblems false (Clause.ofLines false ls) := by
  have hvalue := Segmenting.foldlM_readLine_value
    { tempo := defaults.tempo, timeSignature := defaults.timeSignature } ls
  rw [Segmenting.run, if_pos h] at hvalue
  rw [segment, Pass.reports_bind (fun _ ↦ .pure _) hvalue, Segmenting.foldlM_readLine_reports h,
    Pass.reports_pure, List.append_nil]
  rfl

/-- **What holds in a block was set last.**  If no numeral is too long, the blocks of a text are
those that its clauses describe: one for each measure header, in order, with the tempo and the time
signature that were set last before the next header, and with the staff lines up to there.  No staff
line behind the first header is left out, and what is left out is reported with its line.  A header
with one number is a block of one measure; one with a range does not end before it starts.  The last
part says how headers are written; what stands behind one is on its line, so there is no header in
front of a line feed. -/
theorem lastActive_segment (defaults : Defaults) (ls : List (Nat × List Char)) :
    ((Clause.ofLines false ls).all Clause.isReadable = true →
      ∃ body, (segment defaults ls).value = .ok body ∧
        body.blocks = blocksBehind defaults [] (Clause.ofLines false ls) ∧
        body.blocks.flatMap Block.lines =
          ((Clause.ofLines false ls).dropWhile (!·.isHeader)).filterMap Clause.staffLine? ∧
        (segment defaults ls).reports = Clause.allProblems false (Clause.ofLines false ls)) ∧
    ((Clause.ofLines false ls).all Clause.isReadable = false →
      (segment defaults ls).value = .error .numeralTooLong) ∧
    ∀ keyword n m mark rest : List Char,
      keyword = "measure".toList ∨ keyword = "m".toList → IsNumeral n → IsNumeral m →
      mark = "..".toList ∨ mark = "-".toList → MeasureHeader.ends rest = true →
      MeasureHeader.read? (keyword ++ ' ' :: (n ++ (mark ++ (m ++ rest)))) =
          (if '\n' ∈ rest then none else some ⟨n, some m, rest⟩) ∧
        (MeasureHeader.readLast? rest = none →
          MeasureHeader.read? (keyword ++ ' ' :: (n ++ rest)) =
            if '\n' ∈ rest then none else some ⟨n, none, rest⟩) := by
  refine ⟨?_, ?_, ?_⟩
  · intro hread
    obtain ⟨body, hbody⟩ : ∃ body, (segment defaults ls).value = .ok body := by
      rw [segment_value, Segmenting.run, if_pos hread]
      exact ⟨_, rfl⟩
    have hblocks := blocks_eq hbody
    refine ⟨body, hbody, hblocks, ?_, segment_reports hread⟩
    rw [hblocks, flatMap_lines_blocksBehind]
  · intro hread
    rw [segment_value, Segmenting.run, if_neg (by rw [hread]; exact Bool.false_ne_true)]
    rfl
  · intro keyword n m mark rest hkeyword hn hm hmark hrest
    exact ⟨MeasureHeader.read?_of_front? (MeasureHeader.front?_range hkeyword hn hm hmark hrest),
      fun hlast ↦ MeasureHeader.read?_of_front?
        (MeasureHeader.front?_single hkeyword hn hrest hlast)⟩

/-- A tempo before all blocks, a header behind a header, a time signature and a tempo inside a
block, a tempo and a range that are left out, and a tempo at the end. -/
def patched : List (Nat × List Char) := [(1, "tempo: 90".toList), (2, "m 1 m 2..3 p: c".toList),
  (3, "3/4".toList), (4, "tempo: 0".toList), (5, "p: d".toList), (6, "M 5-4".toList),
  (7, "tempo: 60".toList)]

theorem lastActive_segment_patched :
    (Clause.ofLines false patched).all Clause.isReadable = true ∧
      ∃ body, (segment {} patched).value = .ok body ∧
        body.blocks = blocksBehind {} [] (Clause.ofLines false patched) ∧
        body.blocks.map (fun b ↦ (b.first, b.last, b.tempo.toBits, b.timeSignature)) =
          [(1, 1, (90 : Float).toBits, ⟨4, 4⟩), (2, 3, (90 : Float).toBits, ⟨3, 4⟩),
            (5, 5, (60 : Float).toBits, ⟨3, 4⟩)] ∧
        (segment {} patched).reports = [(4, .ignoredTempo "0"), (6, .reversedRange 5 4)] := by
  have hread : (Clause.ofLines false patched).all Clause.isReadable = true := by decide +kernel
  obtain ⟨body, hbody, hblocks, -, hreports⟩ := (lastActive_segment {} patched).1 hread
  refine ⟨hread, body, hbody, hblocks, ?_, ?_⟩
  · rw [hblocks]
    decide +kernel
  · rw [hreports]
    decide +kernel

end Body

end TextScore
