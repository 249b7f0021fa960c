import Labyrinth.Proofs.Path.Passages
import Labyrinth.Proofs.Run.Record

/-!
# Where a robot can be

**Theorem (`moves_through_passages`).** In every state that a run comes to, a robot that changes its
cell goes through the passage ahead of it, at a move. So a robot that starts on the grid stays on
the grid, on cells that can be reached from its first one. A robot that starts off the grid never
leaves its cell, and the first move that it comes to ends the run in a collision.

The moves that a record tells of are the passages of a walk (`Program.Tells.exists_walk`). No walk
leads away from a cell off the grid (`Maze.WalksFrom.of_off`), so from there nothing is told of but
turns and waits, and a move that is blocked in the end.
-/

namespace Labyrinth

namespace Maze

variable {m : Maze} {a b : Cell} {walk : List Cell}

theorem WalksFrom.of_off (h : m.WalksFrom a b walk) (off : ¬ m.Contains a) :
    walk = [a] ∧ b = a := by
  obtain ⟨p, rfl⟩ := h.exists_walk
  cases p with
  | nil => exact ⟨rfl, rfl⟩
  | cons passage => exact absurd passage.1 off

end Maze

namespace Program

variable {p : Program} {m : Maze} {r r' : Robot} {entries : List TraceEntry} {entry : TraceEntry}

/-- The moves of a record lead along a walk. -/
theorem Tells.exists_walk (h : p.Tells m r entries r') :
    ∃ walk, m.WalksFrom r.position r'.position walk ∧
      walk.length = TraceEntry.forwards entries + 1 := by
  induction h with
  | nil r => exact ⟨[r.position], .refl, rfl⟩
  | @done i b r after last rest _ _ acts _ ih =>
    obtain ⟨walk, walks, length⟩ := ih
    rcases BlockKind.act_eq_some acts with ⟨isMove, passage, rfl⟩ | ⟨other, stays⟩
    · have counted : TraceEntry.forwards (.done i b r r.advance :: rest) =
          TraceEntry.forwards rest + 1 :=
        List.countP_cons_of_pos (by simp [TraceEntry.done, isMove])
      exact ⟨r.position :: walk, walks.cons passage, by rw [counted, List.length_cons, length]⟩
    · have counted : TraceEntry.forwards (.done i b r after :: rest) = TraceEntry.forwards rest :=
        List.countP_cons_of_neg (by simp [TraceEntry.done, other])
      exact ⟨walk, stays ▸ walks, by rw [counted, length]⟩
  | @blocked i b r => exact ⟨[r.position], .refl, rfl⟩

theorem Tells.getLast_of_failed (h : p.Tells m r entries r') (mem : entry ∈ entries)
    (failed : entry.success = false) : entries.getLast? = some entry := by
  induction h with
  | nil => cases mem
  | done _ _ _ _ ih =>
    rcases List.mem_cons.1 mem with rfl | later
    · simp [TraceEntry.done] at failed
    · rw [List.getLast?_cons, ih later]
      rfl
  | blocked => rw [List.mem_singleton.1 mem, List.getLast?_singleton]

theorem Tells.failed_of_off (h : p.Tells m r entries r') (off : ¬ m.Contains r.position)
    (mem : entry ∈ entries) (isMove : entry.blockKind = .forward) : entry.success = false := by
  obtain ⟨walk, walks, length⟩ := h.exists_walk
  obtain ⟨rfl, -⟩ := walks.of_off off
  have none : TraceEntry.forwards entries = 0 := by simpa using length.symm
  rw [TraceEntry.forwards, List.countP_eq_zero] at none
  simpa [isMove] using none entry mem

end Program

namespace Plan

variable {p : Plan} {robot : Robot} {e e' : Execution} {entry : TraceEntry}

/-- A robot changes its cell only at a move, through the passage ahead. -/
theorem Look.position (look : p.Look e e') (moved : e'.robot.position ≠ e.robot.position) :
    ∃ b, p.program.blocks[e.pc]? = some b ∧ b.kind = .forward ∧
      p.maze.Open e.robot.position e.robot.ahead ∧ e'.robot = e.robot.advance := by
  cases look with
  | done _ found _ acts =>
    rcases BlockKind.act_eq_some acts with ⟨isMove, passage, same⟩ | ⟨-, stays⟩
    · exact ⟨_, found, isMove, passage, same⟩
    · exact absurd stays moved
  | _ => exact absurd rfl moved

theorem outcome_of_failed (mem : entry ∈ p.history robot) (failed : entry.success = false) :
    (p.execute robot).verdict.outcome = .wallCollision := by
  by_cases long : p.OverBudget
  · rw [history_of_overBudget long] at mem
    cases mem
  · rw [history_of_within long] at mem
    rw [(verdict_of_within long robot).1, Program.runUnrolled, Program.outcome_runPositions_eq,
      if_neg]
    exact fun done => by simp [done entry mem] at failed

end Plan

/-- **A robot moves through passages only.** -/
theorem Plan.moves_through_passages (m : Maze) (program : Program) (config : RunConfig)
    (robot : Robot) :
    let p := Plan.of m program config
    (∀ e, p.Reachable robot e →
      let next := (p.pass e).state
      (next.robot.position ≠ e.robot.position →
        ∃ b, program.blocks[e.pc]? = some b ∧ b.kind = .forward ∧
          m.Open e.robot.position e.robot.ahead ∧ next.robot = e.robot.advance) ∧
      (m.Contains robot.position →
        m.Contains e.robot.position ∧ m.Reaches robot.position e.robot.position) ∧
      (¬ m.Contains robot.position →
        e.robot.position = robot.position ∧
        (e.Live → ∀ b, program.blocks[e.pc]? = some b → b.kind = .forward →
          ∃ last, p.step e = (.halted .wallCollision, last) ∧
            last.halted = some .wallCollision))) ∧
    (¬ m.Contains robot.position →
      ∀ entry ∈ p.history robot, entry.blockKind = .forward →
        entry.success = false ∧ (p.history robot).getLast? = some entry ∧
          (p.execute robot).verdict.outcome = .wallCollision) := by
  intro p
  refine ⟨fun e reached => ⟨?_, ?_, ?_⟩, ?_⟩
  · exact (pass_look reached.consistent.nested).position
  · intro on
    obtain ⟨entries, told⟩ := reached.told
    obtain ⟨walk, walks, -⟩ := told.tells.exists_walk
    have reaches : m.Reaches robot.position e.robot.position := ⟨walk, walks⟩
    exact ⟨reaches.contains on, reaches⟩
  · intro off
    obtain ⟨entries, told⟩ := reached.told
    obtain ⟨walk, walks, -⟩ := told.tells.exists_walk
    have stays : e.robot.position = robot.position := (walks.of_off off).2
    refine ⟨stays, fun live b found isMove => ?_⟩
    have prim : b.kind.isPrimitive := by rw [isMove]; rfl
    have nested := reached.consistent.nested
    have blocked : b.kind.act m e.robot = none :=
      BlockKind.act_eq_none.2 ⟨isMove, fun passage => off (stays ▸ passage.1)⟩
    obtain ⟨frames, -, -, ended⟩ := step_blocked live nested
      (Program.remainder_primitive found prim e.frames) found blocked
    exact ⟨_, ended, rfl⟩
  · intro off entry mem isMove
    have tells := p.tells_history robot
    have failed := tells.failed_of_off off mem isMove
    exact ⟨failed, tells.getLast_of_failed mem failed, outcome_of_failed mem failed⟩

end Labyrinth
