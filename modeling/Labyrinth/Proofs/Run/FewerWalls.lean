import Labyrinth.Proofs.Path.Fewest
import Labyrinth.Proofs.Run.Pacing

/-!
# Taking out walls

**Theorem (`fewer_walls_keep_runs`).** A run that does not end in a collision is the same run when
walls are taken out of its maze, however it is carried on and stopped: its answers, the poses shown,
its verdict, its trace and its log. And the shortest path gets no longer.

The two machines go in lock step. They differ at a move that is blocked in the maze with more walls,
and there the run in it ends in a collision: that is what each of the lemmas on a pass, a step and a
run says. A walk through the maze with more walls leads through the other one too.
-/

namespace Labyrinth

/-- The first maze is the second one with some walls taken out. -/
structure Maze.FewerWalls (m m' : Maze) : Prop where
  grid : m.toGrid = m'.toGrid
  start : m.start = m'.start
  goal : m.goal = m'.goal
  walls : ∀ w ∈ m.walls, w ∈ m'.walls

/-- The pass ended the run in a collision. -/
def Pass.Collides (pass : Pass) : Prop :=
  ∃ last, pass = .done (.halted .wallCollision) last ∧ last.halted = some .wallCollision

namespace Maze.FewerWalls

variable {m m' : Maze} {a b : Cell} {walk : List Cell} {r after : Robot} {kind : BlockKind}

theorem opens (h : m.FewerWalls m') (passage : m'.Open a b) : m.Open a b := by
  obtain ⟨ha, hb, w, between, free⟩ := passage
  rw [← h.grid] at ha hb
  exact ⟨ha, hb, w, between, fun mem => free (h.walls w mem)⟩

theorem isWalk (h : m.FewerWalls m') (walks : m'.IsWalk walk) : m.IsWalk walk := by
  rw [isWalk_iff_isChain] at walks ⊢
  exact walks.imp fun _ _ => h.opens

theorem walksFrom (h : m.FewerWalls m') (walks : m'.WalksFrom a b walk) : m.WalksFrom a b walk :=
  ⟨walks.1, walks.2.1, h.isWalk walks.2.2⟩

theorem act_eq_some (h : m.FewerWalls m') (acts : kind.act m' r = some after) :
    kind.act m r = some after := by
  cases kind with
  | forward =>
    by_cases passage : m'.Open r.position r.ahead
    · rw [BlockKind.act, if_pos passage] at acts
      rw [BlockKind.act, if_pos (h.opens passage), acts]
    · rw [BlockKind.act, if_neg passage] at acts
      cases acts
  | _ => exact acts

end Maze.FewerWalls

namespace Plan

variable {m : Maze} {p : Plan} {e : Execution} {robot : Robot} {stops : Watcher}

/-- The same program and settings in another maze. -/
def inMaze (p : Plan) (m : Maze) : Plan := { p with maze := m }

theorem finish_of_collided (halted : e.halted = some .wallCollision) :
    (p.finish e).verdict.outcome = .wallCollision := by
  rw [finish_of_settled (.inl halted)]
  rfl

section

variable (h : m.FewerWalls p.maze)
include h

/-! ## Lock step -/

theorem runPrimitive_fewer (e : Execution) (b : Block) :
    (p.inMaze m).runPrimitive e b = p.runPrimitive e b ∨ (p.runPrimitive e b).Collides := by
  rw [runPrimitive, runPrimitive]
  cases acts : b.kind.act p.maze e.robot with
  | some after =>
    left
    rw [show b.kind.act (p.inMaze m).maze e.robot = some after from h.act_eq_some acts]
  | none =>
    right
    exact ⟨_, rfl, rfl⟩

theorem runNext_fewer (e : Execution) :
    (p.inMaze m).runNext e = p.runNext e ∨ (p.runNext e).Collides := by
  rw [runNext, runNext, show (p.inMaze m).program = p.program from rfl,
    show (p.inMaze m).maze.goal = p.maze.goal from h.goal]
  cases p.program.blocks[e.pc]? with
  | none => exact .inl rfl
  | some b =>
    dsimp only
    cases kind : b.kind with
    | repeatStart =>
      left
      simp only [runBlock, kind]
      rfl
    | repeatEnd =>
      left
      simp only [runBlock, kind]
    | _ =>
      have prim : b.kind.isPrimitive := by rw [kind]; rfl
      rw [runBlock_of_primitive prim, runBlock_of_primitive prim]
      exact runPrimitive_fewer h e b

/-- **One pass** looks at the maze only where it runs what stands at the counter. -/
theorem pass_fewer (e : Execution) :
    (p.inMaze m).pass e = p.pass e ∨ (p.pass e).Collides := by
  unfold pass
  split
  · exact .inl rfl
  · split
    · exact .inl rfl
    · split
      · split
        · exact .inl rfl
        · exact runNext_fewer h e
      · exact runNext_fewer h e

theorem passes_fewer (fuel : Nat) (e : Execution) :
    (p.inMaze m).passes fuel e = p.passes fuel e ∨ (p.passes fuel e).Collides := by
  induction fuel generalizing e with
  | zero => exact .inl rfl
  | succ fuel ih =>
    rw [passes, passes]
    rcases pass_fewer h e with same | ⟨last, collides, halted⟩
    · rw [same]
      cases p.pass e with
      | onward next => exact ih next
      | done s next => exact .inl rfl
    · right
      rw [collides]
      exact ⟨last, rfl, halted⟩

/-- **One step** is the same in both mazes, or ends the run in the one with more walls. -/
theorem step_fewer (e : Execution) :
    (p.inMaze m).step e = p.step e ∨
      ∃ last, p.step e = (.halted .wallCollision, last) ∧ last.halted = some .wallCollision := by
  rw [step, step, show (p.inMaze m).passLimit = p.passLimit from rfl]
  rcases passes_fewer h p.passLimit e with same | ⟨last, collides, halted⟩
  · left
    rw [same]
  · right
    rw [collides]
    exact ⟨last, rfl, halted⟩

/-! ## Whole runs -/

theorem report_fewer (o : Outcome) (e : Execution) :
    (p.inMaze m).report o e = p.report o e := by
  have manhattan : (p.inMaze m).maze.manhattan = p.maze.manhattan := by
    show m.manhattan = p.maze.manhattan
    rw [Maze.manhattan, h.start, h.goal, Maze.manhattan]
  have stars : (p.inMaze m).stars e o = p.stars e o := by
    unfold stars
    rw [manhattan]
    rfl
  rw [report, report, verdict, verdict, stars]
  rfl

theorem exhaust_fewer (fuel : Nat) (e : Execution) :
    (p.inMaze m).exhaust fuel e = p.exhaust fuel e ∨
      (p.exhaust fuel e).1 = .wallCollision := by
  induction fuel generalizing e with
  | zero => exact .inl rfl
  | succ fuel ih =>
    rw [exhaust, exhaust]
    rcases step_fewer h e with same | ⟨last, collides, -⟩
    · rw [same]
      split
      · exact ih _
      · exact .inl rfl
    · right
      rw [collides]

theorem finish_fewer (e : Execution) (free : (p.finish e).verdict.outcome ≠ .wallCollision) :
    (p.inMaze m).finish e = p.finish e := by
  rw [finish, finish, show (p.inMaze m).stepLimit = p.stepLimit from rfl]
  rcases exhaust_fewer h p.stepLimit e with same | collides
  · rw [same]
    exact report_fewer h _ _
  · exact absurd collides free

/-- In the hands of a caller the two runs answer alike, until one has ended in a collision. -/
theorem afterCalls_fewer (calls : List Call) (e : Execution) :
    ((p.inMaze m).afterCalls calls e = p.afterCalls calls e ∧
        (p.inMaze m).signals calls e = p.signals calls e) ∨
      (p.afterCalls calls e).halted = some .wallCollision := by
  induction calls generalizing e with
  | nil => exact .inl ⟨rfl, rfl⟩
  | cons c rest ih =>
    cases c with
    | step =>
      rcases step_fewer h e with same | ⟨last, collides, halted⟩
      · rcases ih (p.step e).2 with ⟨state, answers⟩ | ended
        · left
          rw [signals, signals, same, answers]
          refine ⟨?_, rfl⟩
          show (p.inMaze m).afterCalls rest ((p.inMaze m).step e).2 = _
          rw [same, state]
          rfl
        · exact .inr ended
      · right
        have halted' : (p.step e).2.halted = some .wallCollision := by
          rw [collides]
          exact halted
        exact halted_afterCalls halted' rest
    | look => exact ih e
    | cancel => exact ih e.cancel

theorem showSteps_fewer (stops : Watcher) (fuel : Nat) (e : Execution) :
    (p.inMaze m).showSteps stops fuel e = p.showSteps stops fuel e ∨
      (p.showSteps stops fuel e).1.halted = some .wallCollision := by
  induction fuel generalizing e with
  | zero => exact .inl rfl
  | succ fuel ih =>
    rw [showSteps, showSteps]
    rcases step_fewer h e with same | ⟨last, collides, halted⟩
    · rw [same]
      split
      · next robot steps next _ =>
        rcases ih (if stops robot steps then next.cancel else next) with same' | ended
        · left
          rw [same']
        · exact .inr ended
      · exact .inl rfl
    · right
      rw [collides]
      exact halted

theorem executePaced_fewer {stopped : Bool}
    (free : (p.executePaced robot stopped stops).verdict.outcome ≠ .wallCollision) :
    (p.inMaze m).executePaced robot stopped stops = p.executePaced robot stopped stops := by
  obtain ⟨⟨last, seen⟩, shown⟩ : ∃ ended, p.showSteps stops p.stepLimit
    (if stopped then (p.start robot).cancel else p.start robot) = ended := ⟨_, rfl⟩
  rw [executePaced_of_showSteps shown] at free ⊢
  rcases showSteps_fewer h stops p.stepLimit
    (if stopped then (p.start robot).cancel else p.start robot) with same | collided
  · have shown' : (p.inMaze m).showSteps stops (p.inMaze m).stepLimit
      (if stopped then ((p.inMaze m).start robot).cancel else (p.inMaze m).start robot) =
        (last, seen) := same.trans shown
    rw [executePaced_of_showSteps shown', finish_fewer h last free]
  · rw [shown] at collided
    exact absurd (finish_of_collided collided) free

end

end Plan

/-! ## The shortest path -/

/-- Taking out walls keeps the goal within reach, and makes the way to it no longer. -/
theorem Maze.FewerWalls.length_shortestPath_le {m m' : Maze} (h : m.FewerWalls m')
    (found : m'.shortestPath ≠ []) :
    m.shortestPath ≠ [] ∧ m.shortestPath.length ≤ m'.shortestPath.length := by
  have walks : m'.WalksFrom m'.start m'.goal m'.shortestPath := by
    rw [shortestPath] at found ⊢
    rcases m'.search_spec with ⟨path, result, walks, -⟩ | ⟨-, result⟩
    · rw [result]
      exact walks
    · rw [result] at found
      exact absurd rfl found
  have walks : m.WalksFrom m.start m.goal m'.shortestPath := by
    rw [h.start, h.goal]
    exact h.walksFrom walks
  obtain ⟨⟨first, -⟩, deep⟩ := shortestPath_of_reaches ⟨_, walks⟩
  have far := walks.depth_lt_length
  refine ⟨fun none => ?_, by omega⟩
  rw [none] at first
  cases first

/-- **Taking out walls keeps the runs that do not collide, and makes no shortest path longer.** -/
theorem Maze.fewer_walls_keep_runs {m m' : Maze} (h : m.FewerWalls m') :
    (∀ (program : Program) (config : RunConfig) (robot : Robot),
      let p := Plan.of m program config
      let p' := Plan.of m' program config
      ((p'.execute robot).verdict.outcome ≠ .wallCollision →
        p.execute robot = p'.execute robot) ∧
      (∀ stopped stops,
        (p'.executePaced robot stopped stops).verdict.outcome ≠ .wallCollision →
          p.executePaced robot stopped stops = p'.executePaced robot stopped stops) ∧
      (∀ calls,
        let e := p.afterCalls calls (p.start robot)
        let e' := p'.afterCalls calls (p'.start robot)
        (p'.finish e').verdict.outcome ≠ .wallCollision →
          p.signals calls (p.start robot) = p'.signals calls (p'.start robot) ∧ e = e' ∧
            p.finish e = p'.finish e')) ∧
    (m'.shortestPath ≠ [] →
      m.shortestPath ≠ [] ∧ m.shortestPath.length ≤ m'.shortestPath.length) := by
  refine ⟨fun program config robot => ?_, h.length_shortestPath_le⟩
  intro p p'
  have h : m.FewerWalls p'.maze := h
  have same : p = p'.inMaze m := rfl
  clear_value p p'
  subst same
  refine ⟨Plan.finish_fewer h (p'.start robot), ?_, ?_⟩
  · intro stopped stops free
    exact Plan.executePaced_fewer h free
  · intro calls e e' free
    rcases Plan.afterCalls_fewer h calls (p'.start robot) with ⟨state, answers⟩ | collided
    · have state : e = e' := state
      refine ⟨answers, state, ?_⟩
      rw [state]
      exact Plan.finish_fewer h e' free
    · exact absurd (Plan.finish_of_collided collided) free

/-- A wall between the first two of three cells in a row, and a way around it. -/
theorem Maze.fewer_walls_keep_runs_detour :
    let m : Maze := .close ⟨3, 2⟩ .origin ⟨2, 0⟩ [] (by decide) (by decide) (by decide) (by decide)
    let m' : Maze := .close ⟨3, 2⟩ .origin ⟨2, 0⟩ [.vertical 1 0] (by decide) (by decide)
      (by decide) (by decide)
    let program : Program := .ofKinds "b"
      [.turnRight, .forward, .turnLeft, .forward, .forward, .turnLeft, .forward]
    let run (m : Maze) := (Plan.of m program { recordTrace := true }).execute ⟨.origin, .right⟩
    m.FewerWalls m' ∧ (run m').verdict.outcome = .success ∧ run m = run m' ∧
      m'.shortestPath ≠ [] ∧ m.shortestPath.length ≤ m'.shortestPath.length := by
  intro m m' program run
  have fewer : m.FewerWalls m' := by
    refine ⟨rfl, rfl, rfl, fun w mem => ?_⟩
    rw [mem_walls_close] at mem ⊢
    exact .inr (mem.resolve_left List.not_mem_nil)
  obtain ⟨runs, paths⟩ := Maze.fewer_walls_keep_runs fewer
  have within : ¬ (Plan.of m' program { recordTrace := true }).OverBudget := by decide
  have success : (run m').verdict.outcome = .success :=
    (Plan.verdict_of_within within ⟨.origin, .right⟩).1.trans (by decide)
  have found : m'.shortestPath ≠ [] := by decide
  refine ⟨fewer, success, ?_, found, (paths found).2⟩
  refine (runs program { recordTrace := true } ⟨.origin, .right⟩).1 fun collides => ?_
  exact absurd (success.symm.trans collides) (by decide)

end Labyrinth
