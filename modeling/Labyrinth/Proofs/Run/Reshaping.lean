import Labyrinth.Proofs.Program.Mending
import Labyrinth.Proofs.Run.History

/-!
# Reshaping a program

**Theorem (`reshaping_keeps_verdict`).** A repeat of balanced blocks may be written out, and the
brackets of a program may be mended: the verdict on a run stays the same, down to its message and
its trace, but for the positions of the blocks in the program. What stands around the repeat may
leave repeats open and may have stray closing brackets.

Two programs that are written out to the same blocks have the same verdict
(`renamed_verdict_of_written`). Where one of them reaches the step ceiling, so does the other, since
their lengths are the same. Else each run does the program written out, and what is done depends on
the kinds of the blocks at the positions only; their names are just recorded, so that they may be
changed (`alike_runPositions`).
-/

namespace Labyrinth

/-- What an entry tells when the blocks are called otherwise, wherever they stand in the program. -/
def TraceEntry.renamed (name : String → String) (entry : TraceEntry) : TraceEntry :=
  { entry.unplaced with blockId := name entry.blockId }

/-- What a verdict tells when the blocks are called otherwise. -/
def Verdict.renamed (name : String → String) (v : Verdict) : Verdict :=
  { v with trace := v.trace.map (·.map (TraceEntry.renamed name)) }

/-- What a run depends on in a block, and what it calls it. -/
def Block.called (name : String → String) (b : Block) : BlockKind × String := (b.kind, name b.id)

variable {name : String → String}

/-- Two runs come to the same, wherever the blocks stand in the programs, if they are called
otherwise. -/
structure UnrolledRun.Alike (name : String → String) (u u' : UnrolledRun) : Prop where
  robot : u.robot = u'.robot
  outcome : u.outcome = u'.outcome
  entries : u.entries.map (TraceEntry.renamed name) = u'.entries.map (TraceEntry.renamed name)

theorem UnrolledRun.Alike.steps {u u' : UnrolledRun} (h : u.Alike name u') :
    u.steps = u'.steps := by
  have renamed (entries : List TraceEntry) :
      (entries.map (TraceEntry.renamed name)).countP (·.success) = entries.countP (·.success) :=
    List.countP_map
  rw [UnrolledRun.steps, UnrolledRun.steps, ← renamed, h.entries, renamed]

/-- What is done depends on the blocks at the positions, and not on the positions. -/
theorem Program.alike_runPositions {p p' : Program} {positions positions' : List Nat}
    (same : positions.map (p.blocks[·]?.map (Block.called name)) =
      positions'.map (p'.blocks[·]?.map (Block.called name))) (m : Maze) (r : Robot) :
    (p.runPositions m positions r).Alike name (p'.runPositions m positions' r) := by
  -- on the positions of either program; the blocks there agree one by one
  induction positions generalizing positions' r with
  | nil =>
    obtain rfl : positions' = [] := List.map_eq_nil_iff.1 same.symm
    exact ⟨rfl, rfl, rfl⟩
  | cons i rest ih =>
    obtain ⟨j, rest', rfl, here, later⟩ := List.map_eq_cons_iff.1 same.symm
    have block : p'.blocks[j]?.map (Block.called name) = p.blocks[i]?.map (Block.called name) :=
      here
    cases found : p.blocks[i]? with
    | none =>
      rw [found, Option.map_none, Option.map_eq_none_iff] at block
      simp only [runPositions, found, block]
      exact ih later.symm r
    | some b =>
      rw [found, Option.map_some, Option.map_eq_some_iff] at block
      obtain ⟨b', found', called⟩ := block
      obtain ⟨kind, id⟩ := Prod.mk.inj called
      cases acts : b.kind.act m r with
      | none =>
        have acts' : b'.kind.act m r = none := by rw [kind, acts]
        simp only [runPositions, found, found', acts, acts']
        refine ⟨rfl, rfl, ?_⟩
        simp only [List.map_cons, List.map_nil, TraceEntry.renamed, TraceEntry.unplaced,
          TraceEntry.blocked, kind, id]
      | some after =>
        have acts' : b'.kind.act m r = some after := by rw [kind, acts]
        obtain ⟨robot, outcome, entries⟩ := ih later.symm after
        simp only [runPositions, found, found', acts, acts']
        refine ⟨robot, outcome, ?_⟩
        simp only [List.map_cons, entries, TraceEntry.renamed, TraceEntry.unplaced,
          TraceEntry.done, kind, id]

theorem Program.alike_runUnrolled {p p' : Program}
    (same : p.written.map (Block.called name) = p'.written.map (Block.called name)) (m : Maze)
    (r : Robot) : (p.runUnrolled m r).Alike name (p'.runUnrolled m r) := by
  apply alike_runPositions
  have called (p : Program) : p.expansion.map (p.blocks[·]?.map (Block.called name)) =
      (p.written.map (Block.called name)).map some := by
    have blocks := congrArg (List.map (Option.map (Block.called name))) p.map_expansion
    rw [List.map_map, List.map_map] at blocks
    rw [List.map_map]
    exact blocks
  rw [called, called, same]

namespace Plan

variable {p p' : Plan} {e e' : Execution}

theorem renamed_verdict_congr (maze : p.maze = p'.maze) (config : p.config = p'.config)
    (unrolled : p.unrolled = p'.unrolled) (robot : e.robot = e'.robot) (steps : e.steps = e'.steps)
    (trace : e.trace.map (·.toList.map (TraceEntry.renamed name)) =
      e'.trace.map (·.toList.map (TraceEntry.renamed name))) (o : Outcome) :
    (p.verdict o e).renamed name = (p'.verdict o e').renamed name := by
  have message : p.message e o = p'.message e' o := by
    unfold message
    rw [config, unrolled, robot, steps]
  have stars : p.stars e o = p'.stars e' o := by
    unfold stars
    rw [maze, config, steps]
  simp only [Verdict.renamed, verdict, message, stars, robot, steps, Option.map_map]
  congr 1

/-- **Programs that are written out alike have the same verdict.** -/
theorem renamed_verdict_of_written (maze : p.maze = p'.maze) (config : p.config = p'.config)
    (same : p.program.written.map (Block.called name) =
      p'.program.written.map (Block.called name)) (robot : Robot) :
    (p.execute robot).verdict.renamed name = (p'.execute robot).verdict.renamed name := by
  have length : p.program.written.length = p'.program.written.length := by
    rw [← List.length_map (Block.called name), same, List.length_map]
  have unrolled : p.unrolled = p'.unrolled := by
    rw [unrolled_eq_capped, unrolled_eq_capped, Program.exactLength_eq, Program.exactLength_eq,
      length]
  have budget : p.OverBudget ↔ p'.OverBudget := by
    rw [OverBudget, OverBudget, config, unrolled]
  by_cases long : p.OverBudget
  · rw [execute_of_overBudget long, execute_of_overBudget (budget.1 long)]
    apply renamed_verdict_congr maze config unrolled
    · rfl
    · rfl
    · rw [start, start, config]
  · have within' : ¬ p'.OverBudget := fun long' => long (budget.2 long')
    obtain ⟨last, run, -, pose, steps, trace⟩ := exhaust_start long robot
    obtain ⟨last', run', -, pose', steps', trace'⟩ := exhaust_start within' robot
    have alike := Program.alike_runUnrolled same p.maze robot
    rw [← maze] at run' pose' steps' trace'
    rw [execute, execute, finish, finish, run, run', ← alike.outcome]
    apply renamed_verdict_congr maze config unrolled
    · rw [pose, pose', alike.robot]
    · rw [steps, steps', alike.steps]
    · rw [trace, trace', config]
      split
      · exact congrArg some alike.entries
      · rfl

theorem unplaced_verdict_of_written (maze : p.maze = p'.maze) (config : p.config = p'.config)
    (same : p.program.written = p'.program.written) (robot : Robot) :
    (p.execute robot).verdict.unplaced = (p'.execute robot).verdict.unplaced := by
  have called : p.program.written.map (Block.called id) =
      p'.program.written.map (Block.called id) := congrArg (List.map (Block.called id)) same
  exact renamed_verdict_of_written maze config called robot

end Plan

/-- **Writing out a repeat and mending the brackets keep the verdict.** -/
theorem Plan.reshaping_keeps_verdict (m : Maze) (config : RunConfig) (robot : Robot) :
    let verdict (program : Program) := ((Plan.of m program config).execute robot).verdict.unplaced
    (∀ (before body behind : List Block) (opening closing : Block),
      opening.kind = .repeatStart → closing.kind = .repeatEnd → Program.Balanced body →
        verdict ⟨before ++ [opening] ++ body ++ [closing] ++ behind⟩ =
          verdict ⟨before ++ (List.replicate opening.iterations body).flatten ++ behind⟩) ∧
    (∀ (program : Program) (closers : List Block),
      closers.length = program.unclosedCount → (∀ b ∈ closers, b.kind = .repeatEnd) →
        Program.Balanced (program.mended closers).blocks ∧
          verdict (program.mended closers) = verdict program) := by
  intro verdict
  have keeps {program program' : Program} (same : program.written = program'.written) :
      verdict program = verdict program' :=
    have maze : (Plan.of m program config).maze = (Plan.of m program' config).maze := rfl
    unplaced_verdict_of_written maze rfl same robot
  refine ⟨fun before body behind opening closing opens ends balanced => ?_,
    fun program closers count ends => ⟨?_, ?_⟩⟩
  · apply keeps
    rw [Program.written, Program.written, Program.writtenLevels_repeat opens ends balanced]
  · exact Program.balanced_mended count ends
  · exact keeps (Program.written_mended count ends)

/-- A repeat within one that is closed only behind it, and a repeat that is never closed behind a
stray closing bracket. -/
theorem Plan.reshaping_keeps_verdict_corridor :
    let m : Maze := .close ⟨5, 1⟩ .origin ⟨4, 0⟩ [] (by decide) (by decide) (by decide) (by decide)
    let verdict (blocks : List Block) :=
      ((Plan.of m ⟨blocks⟩ { recordTrace := true }).execute ⟨.origin, .right⟩).verdict.unplaced
    let outer : Block := ⟨"a", .repeatStart, none⟩
    let inner : Block := ⟨"b", .repeatStart, some 3⟩
    let move : Block := ⟨"c", .forward, none⟩
    let turn : Block := ⟨"d", .turnLeft, none⟩
    let closing : Block := ⟨"e", .repeatEnd, none⟩
    verdict [outer, inner, move, closing, turn, closing] =
        verdict [outer, move, move, move, turn, closing] ∧
      verdict [outer, move, turn, closing] = verdict [closing, outer, move, turn] := by
  intro m verdict outer inner move turn closing
  obtain ⟨repeats, mends⟩ :=
    Plan.reshaping_keeps_verdict m { recordTrace := true } ⟨.origin, .right⟩
  have written : (Program.mk [closing, outer, move, turn]).mended [closing] =
      ⟨[outer, move, turn, closing]⟩ := by decide
  refine ⟨repeats [outer] [move] [turn, closing] inner closing rfl rfl (by decide), ?_⟩
  have mended := (mends ⟨[closing, outer, move, turn]⟩ [closing] (by decide) (by decide)).2
  rwa [written] at mended

end Labyrinth
