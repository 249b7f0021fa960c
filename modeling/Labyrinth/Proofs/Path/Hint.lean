import Labyrinth.Path.Hint
import Labyrinth.Proofs.Path.BreadthFirst
import Labyrinth.Proofs.Program.Levels
import Labyrinth.Proofs.Run.History

/-!
# Hints solve their mazes

**Theorem (`hint_solves`).** There is a hint exactly when the goal can be reached from the start. A
run of it from the start, with the heading that it was made for and within its budget, does all its
blocks and ends on the goal, and its moves lead along the shortest path.

A program without brackets runs each of its blocks once, in the order in which they stand
(`Program.Straight.expansion`). A hint is such a program: a list of turns and moves, each of which
can be done when its turn comes (`Maze.Leads`). The turns that face the next cell lead nowhere
(`leads_turnsTo`), and the move after them leads to that cell, since a passage joins the two
(`leads_kinds`). A program that is such a list does what the list does (`Leads.runPositions`).
-/

namespace Labyrinth

/-! ## Programs without brackets -/

namespace Outline

theorem levels_straight {bs : List Block} (straight : ∀ b ∈ bs, b.kind.isPrimitive) (i : Nat) :
    levels i bs = [(List.range' i bs.length).map primitive] := by
  induction bs generalizing i with
  | nil => rfl
  | cons b rest ih =>
    rw [List.forall_mem_cons] at straight
    rw [levels_primitive straight.1, ih straight.2 (i + 1)]
    rfl

theorem expandAll_map_primitive (positions : List Nat) :
    expandAll (positions.map primitive) = positions := by
  induction positions with
  | nil => rfl
  | cons i rest ih => rw [List.map_cons, expandAll, ih, expand, List.singleton_append]

end Outline

namespace Program

variable {p : Program}

/-- The program has no brackets. -/
def Straight (p : Program) : Prop := ∀ b ∈ p.blocks, b.kind.isPrimitive

theorem Straight.expansion (h : p.Straight) : p.expansion = List.range' 0 p.length := by
  rw [Program.expansion, outline, Outline.levels_straight h, List.flatten_singleton,
    Outline.expandAll_map_primitive, length]

theorem Straight.exactLength (h : p.Straight) : p.exactLength = p.length := by
  rw [Program.exactLength, ← Outline.length_expandAll]
  exact (congrArg List.length h.expansion).trans List.length_range'

end Program

/-! ## Blocks of some kinds -/

namespace Program

theorem exists_block_of_kinds {p : Program} {i : Nat} {kind : BlockKind} {kinds : List BlockKind}
    (stands : (p.blocks.drop i).map (·.kind) = kind :: kinds) :
    ∃ b, p.blocks[i]? = some b ∧ b.kind = kind ∧
      (p.blocks.drop (i + 1)).map (·.kind) = kinds := by
  obtain ⟨b, rest, split, rfl, rfl⟩ := List.map_eq_cons_iff.1 stands
  refine ⟨b, ?_, rfl, ?_⟩
  · rw [← List.head?_drop, split, List.head?_cons]
  · rw [← List.tail_drop, split, List.tail_cons]

theorem map_kind_ofKinds (word : String) (kinds : List BlockKind) :
    (ofKinds word kinds).blocks.map (·.kind) = kinds := by
  refine List.ext_getElem (by simp [ofKinds]) fun i _ _ => ?_
  simp [ofKinds]

end Program

theorem Path.map_kind_program (path : List Cell) (facing : Heading) :
    (Path.program path facing).blocks.map (·.kind) = Path.kinds facing path :=
  Program.map_kind_ofKinds _ _

namespace Maze

variable {m : Maze} {r r' r'' : Robot} {kinds later : List BlockKind} {cells beyond : List Cell}

/-- Turns and moves that can be done one after the other from a pose. The moves lead to the cells
listed, and everything together to a last pose. -/
inductive Leads (m : Maze) : Robot → List BlockKind → List Cell → Robot → Prop
  | done (r : Robot) : Leads m r [] [] r
  | left {r r' : Robot} {kinds : List BlockKind} {cells : List Cell} :
      Leads m r.turnLeft kinds cells r' → Leads m r (.turnLeft :: kinds) cells r'
  | right {r r' : Robot} {kinds : List BlockKind} {cells : List Cell} :
      Leads m r.turnRight kinds cells r' → Leads m r (.turnRight :: kinds) cells r'
  | move {r r' : Robot} {kinds : List BlockKind} {cells : List Cell} :
      m.Open r.position r.ahead → Leads m r.advance kinds cells r' →
      Leads m r (.forward :: kinds) (r.ahead :: cells) r'

theorem Leads.append (h : m.Leads r kinds cells r') (after : m.Leads r' later beyond r'') :
    m.Leads r (kinds ++ later) (cells ++ beyond) r'' := by
  induction h with
  | done => exact after
  | left _ ih => exact .left (ih after)
  | right _ ih => exact .right (ih after)
  | move passage _ ih => exact .move passage (ih after)

theorem Leads.isPrimitive (h : m.Leads r kinds cells r') :
    ∀ kind ∈ kinds, kind.isPrimitive := by
  induction h with
  | done => exact fun kind none => absurd none List.not_mem_nil
  | left _ ih => exact List.forall_mem_cons.2 ⟨rfl, ih⟩
  | right _ ih => exact List.forall_mem_cons.2 ⟨rfl, ih⟩
  | move _ _ ih => exact List.forall_mem_cons.2 ⟨rfl, ih⟩

/-! ## Walking a path -/

theorem leads_turnsTo (m : Maze) (c : Cell) (h wanted : Heading) :
    m.Leads ⟨c, h⟩ (h.turnsTo wanted) [] ⟨c, wanted⟩ := by
  unfold Heading.turnsTo
  split
  · next isLeft => exact isLeft ▸ .left (.done _)
  · split
    · next isRight => exact isRight ▸ .right (.done _)
    · split
      · next same => exact same ▸ .done _
      · next notLeft notRight other =>
        have behind : wanted = h.turnRight.turnRight := by
          cases h <;> cases wanted <;> first | rfl | contradiction
        exact behind ▸ .right (.right (.done _))

/-- The blocks that walk a path lead along it. -/
theorem leads_kinds {a : Cell} {path : List Cell} (walks : m.IsWalk (a :: path)) (h : Heading) :
    ∃ r, m.Leads ⟨a, h⟩ (Path.kinds h (a :: path)) path r ∧
      (a :: path).getLast? = some r.position := by
  induction path generalizing a h with
  | nil => exact ⟨⟨a, h⟩, .done _, rfl⟩
  | cons b path ih =>
    obtain ⟨passage, rest⟩ := walks
    obtain ⟨wanted, rfl⟩ := passage.exists_step
    obtain ⟨r, along, last⟩ := ih rest wanted
    refine ⟨r, ?_, by simpa using last⟩
    simp only [Path.kinds, Cell.headingTo?_add_step]
    exact (leads_turnsTo m a h wanted).append (.move passage along)

/-! ## Running it -/

/-- The run does so many blocks, its moves lead to the cells listed, and it ends at a pose that
decides on its outcome. -/
structure Arrives (m : Maze) (steps : Nat) (cells : List Cell) (r : Robot) (u : UnrolledRun) :
    Prop where
  robot : u.robot = r
  outcome : u.outcome = if r.position = m.goal then .success else .goalNotReached
  steps : u.steps = steps
  moves : TraceEntry.moves u.entries = cells

theorem Arrives.cons {p : Program} {i : Nat} {kind : BlockKind} {after : Robot}
    (stands : (p.blocks.drop i).map (·.kind) = kind :: kinds)
    (acts : kind.act m r = some after)
    (rest : (p.blocks.drop (i + 1)).map (·.kind) = kinds →
      m.Arrives kinds.length cells r'
        (p.runPositions m (List.range' (i + 1) kinds.length) after)) :
    m.Arrives (kinds.length + 1) (if kind = .forward then after.position :: cells else cells) r'
      (p.runPositions m (List.range' i (kinds.length + 1)) r) := by
  obtain ⟨b, found, rfl, next⟩ := Program.exists_block_of_kinds stands
  obtain ⟨robot, outcome, steps, moves⟩ := rest next
  simp only [List.range'_succ, Program.runPositions, found, acts]
  refine ⟨robot, outcome, (List.countP_cons_of_pos rfl).trans (congrArg (· + 1) steps), ?_⟩
  rw [← moves, TraceEntry.moves, List.filter_cons]
  by_cases isMove : b.kind = .forward
  · simp [TraceEntry.done, isMove, TraceEntry.moves]
  · simp [TraceEntry.done, isMove, TraceEntry.moves]

/-- A program does what its blocks lead to. -/
theorem Leads.runPositions (h : m.Leads r kinds cells r') {p : Program} {i : Nat}
    (stands : (p.blocks.drop i).map (·.kind) = kinds) :
    m.Arrives kinds.length cells r' (p.runPositions m (List.range' i kinds.length) r) := by
  induction h generalizing i with
  | done => exact ⟨rfl, rfl, rfl, rfl⟩
  | left _ ih => exact .cons stands rfl ih
  | right _ ih => exact .cons stands rfl ih
  | move passage _ ih => exact .cons stands (if_pos passage) ih

theorem Leads.runUnrolled {p : Program} (h : m.Leads r (p.blocks.map (·.kind)) cells r') :
    p.exactLength = p.length ∧ m.Arrives p.length cells r' (p.runUnrolled m r) := by
  have straight : p.Straight := fun b mem => h.isPrimitive _ (List.mem_map_of_mem mem)
  have arrives := h.runPositions (p := p) (i := 0) rfl
  rw [List.length_map] at arrives
  refine ⟨straight.exactLength, ?_⟩
  rw [Program.runUnrolled, straight.expansion]
  exact arrives

/-- Written out, a hint leads along the shortest path to the goal. -/
theorem exists_arrives_of_hint {facing : Heading} {program : Program}
    (hinted : m.hint facing = some program) :
    ∃ r, r.position = m.goal ∧ program.exactLength = program.length ∧
      m.Arrives program.length m.shortestPath.tail r
        (program.runUnrolled m ⟨m.start, facing⟩) := by
  rw [hint] at hinted
  rw [shortestPath]
  rcases m.search_spec with ⟨path, found, ⟨first, ends, isWalk⟩, -⟩ | ⟨-, result⟩
  · rw [found] at hinted ⊢
    obtain rfl : Path.program path facing = program := Option.some.inj hinted
    obtain ⟨rest, rfl⟩ : ∃ rest, path = m.start :: rest := List.head?_eq_some_iff.1 first
    obtain ⟨r, along, last⟩ := leads_kinds isWalk facing
    rw [← Path.map_kind_program] at along
    exact ⟨r, Option.some.inj (last.symm.trans ends), along.runUnrolled⟩
  · rw [result] at hinted
    cases hinted

end Maze

/-- **A hint solves its maze.** -/
theorem Maze.hint_solves (m : Maze) (facing : Heading) :
    ((m.hint facing).isSome ↔ m.Reaches m.start m.goal) ∧
      ∀ program, m.hint facing = some program → ∀ config : RunConfig,
        program.length < config.maxSteps.toNat →
        let p := Plan.of m program config
        let v := (p.execute ⟨m.start, facing⟩).verdict
        v.outcome = .success ∧ v.steps = program.length ∧ v.finalRobot.position = m.goal ∧
          TraceEntry.moves (p.history ⟨m.start, facing⟩) = m.shortestPath.tail := by
  rw [Maze.hint, shortestPath]
  rcases m.search_spec with ⟨path, found, walks, -⟩ | ⟨apart, result⟩
  · rw [found]
    refine ⟨⟨fun _ => ⟨path, walks⟩, fun _ => rfl⟩, ?_⟩
    intro program hinted config budget p v
    obtain rfl : Path.program path facing = program := Option.some.inj hinted
    obtain ⟨first, ends, isWalk⟩ := walks
    obtain ⟨rest, rfl⟩ : ∃ rest, path = m.start :: rest := List.head?_eq_some_iff.1 first
    obtain ⟨r, along, last⟩ := leads_kinds isWalk facing
    have onGoal : r.position = m.goal := Option.some.inj (last.symm.trans ends)
    rw [← Path.map_kind_program] at along
    obtain ⟨length, arrives⟩ := along.runUnrolled
    have within : ¬ p.OverBudget := by
      rw [Plan.overBudget_iff]
      exact Nat.not_le_of_lt (length.symm ▸ budget)
    obtain ⟨outcome, pose, steps⟩ := Plan.verdict_of_within within ⟨m.start, facing⟩
    refine ⟨?_, ?_, ?_, ?_⟩
    · exact (outcome.trans arrives.outcome).trans (if_pos onGoal)
    · exact steps.trans arrives.steps
    · exact (congrArg Robot.position (pose.trans arrives.robot)).trans onGoal
    · rw [Plan.history_of_within within]
      exact arrives.moves
  · rw [result]
    refine ⟨⟨fun found => absurd found Bool.false_ne_true, fun reaches => absurd reaches apart⟩, ?_⟩
    rintro program ⟨⟩

end Labyrinth
