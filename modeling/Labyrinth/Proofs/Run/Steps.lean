import Labyrinth.Proofs.Run.Control

/-!
# What one step does

A step passes brackets until it comes to the first block that is still to come, and runs it; if
nothing is to come, it ends the run. So a step can be read off `Program.remainder`, without the
counter and the stack.

**One pass** (`Plan.pass_cases`). A run that goes on moves past a bracket, comes to a primitive
block, or comes to the end of the program.

**One step** (`Plan.step_end`, `Plan.step_executed`, `Plan.step_blocked`). The number of passes
that a step is given is enough, because each of them makes the weight smaller.
-/

namespace Labyrinth

open Outline

namespace Execution

/-- The run has neither ended nor been told to stop. -/
structure Live (e : Execution) : Prop where
  halted : e.halted = none
  cancel : e.cancelRequested = false

/-- The same state with the counter and the active repeats elsewhere. -/
def moveTo (e : Execution) (pc : Nat) (frames : List Frame) : Execution :=
  { e with pc := pc, frames := frames }

/-- The state in which the block at a position has been done, with the active repeats around it. -/
def doneAt (e : Execution) (i : Nat) (b : Block) (after : Robot) (frames : List Frame) :
    Execution :=
  { e with
    robot := after
    pc := i + 1
    frames := frames
    steps := e.steps + 1
    trace := e.trace.map (·.push (.done i b e.robot after))
    log := e.log.push (.executed i b.kind after.position (e.steps + 1)) }

/-- The state in which the block at a position was blocked and ended the run. -/
def blockedAt (e : Execution) (i : Nat) (b : Block) (frames : List Frame) : Execution :=
  { e with
    pc := i
    frames := frames
    trace := e.trace.map (·.push (.blocked i b e.robot))
    halted := some .wallCollision }

theorem moveTo_self (e : Execution) : e.moveTo e.pc e.frames = e := rfl

end Execution

namespace Plan

variable {p : Plan} {e : Execution} {b : Block} {i : Nat}

/-- What is still to come in a state. -/
def remainder (p : Plan) (e : Execution) : List Nat := p.program.remainder e.pc e.frames

/-- The outcome of a run that comes to the end of its program. -/
def endOutcome (p : Plan) (robot : Robot) : Outcome :=
  if robot.position = p.maze.goal then .success else .goalNotReached

/-- Runs a primitive block at the counter. -/
def runPrimitive (p : Plan) (e : Execution) (b : Block) : Pass :=
  match b.kind.act p.maze e.robot with
  | some after => e.complete b after
  | none => e.collide b

theorem runPrimitive_eq_done (p : Plan) (e : Execution) (b : Block) :
    ∃ s e', p.runPrimitive e b = .done s e' := by
  unfold runPrimitive
  split
  · exact ⟨_, _, rfl⟩
  · exact ⟨_, _, rfl⟩

theorem runBlock_of_primitive (prim : b.kind.isPrimitive) (e : Execution) :
    p.runBlock e b = p.runPrimitive e b := by
  unfold runBlock
  split
  · next kind => simp [kind, BlockKind.isPrimitive] at prim
  · next kind => simp [kind, BlockKind.isPrimitive] at prim
  · rfl

/-! ## The tables -/

theorem endOf_repeatStart (h : p.program.blocks[i]? = some b) (kind : b.kind = .repeatStart) :
    p.endOf i = p.program.levelEnd (i + 1) := by
  have inside := Program.lt_length_of_getElem? h
  rw [endOf, p.ends_eq, List.getD_eq_getElem?_getD, Program.getElem?_matchingEnds, if_pos inside,
    Option.getD_some, Program.matchingEnd?_getD h kind]

theorem bodyOf_eq_zero (h : p.program.blocks[i]? = some b) (kind : b.kind = .repeatStart) :
    p.bodyOf i = 0 ↔ countAll (p.program.levelAt (i + 1)) = 0 := by
  rw [bodyOf, p.bodies_eq, List.getD_eq_getElem?_getD, Program.bodyLengths_repeatStart h kind,
    Option.getD_some, Program.capped_eq_zero]

theorem enterRepeat_pastBracket (h : p.program.blocks[e.pc]? = some b)
    (kind : b.kind = .repeatStart) :
    ∃ pc' frames', p.program.PastBracket e.pc e.frames pc' frames' ∧
      p.enterRepeat e b = e.moveTo pc' frames' := by
  unfold enterRepeat
  rw [endOf_repeatStart h kind]
  by_cases nothing : b.iterations = 0 ∨ p.bodyOf e.pc = 0
  · rw [bodyOf_eq_zero h kind] at nothing
    refine ⟨_, _, .skip h kind nothing, ?_⟩
    rw [← bodyOf_eq_zero h kind] at nothing
    rw [if_pos nothing]
    rfl
  · rw [bodyOf_eq_zero h kind, not_or] at nothing
    refine ⟨_, _, .enter h kind nothing.1 nothing.2, ?_⟩
    rw [← bodyOf_eq_zero h kind, ← not_or] at nothing
    rw [if_neg nothing]
    rfl

/-! ## One pass -/

theorem runNext_cases (h : p.program.Nested e.pc e.frames)
    (inside : ∀ f ∈ e.frames.head?, e.pc < f.stop) :
    (∃ pc' frames', p.program.PastBracket e.pc e.frames pc' frames' ∧
      p.runNext e = .onward (e.moveTo pc' frames')) ∨
    (∃ b, p.program.blocks[e.pc]? = some b ∧ b.kind.isPrimitive ∧
      p.runNext e = p.runPrimitive e b) ∨
    (e.frames = [] ∧ p.program.length ≤ e.pc ∧ p.runNext e = e.halt (p.endOutcome e.robot)) := by
  -- In a body the level ends only where the body does.
  have outside : p.program.levelEnd e.pc ≤ e.pc → e.frames = [] := by
    intro ended
    cases frames : e.frames with
    | nil => rfl
    | cons f outer =>
      rw [frames] at h inside
      have := inside f rfl
      rw [h.2.1.levelEnd_eq] at ended
      omega
  unfold runNext
  cases found : p.program.blocks[e.pc]? with
  | none =>
    have behind : p.program.length ≤ e.pc := List.getElem?_eq_none_iff.1 found
    have ended : p.program.levelEnd e.pc ≤ e.pc :=
      Nat.le_trans (Program.levelEnd_le_length _ _) behind
    exact .inr (.inr ⟨outside ended, behind, rfl⟩)
  | some b =>
    cases kind : b.kind with
    | repeatStart =>
      obtain ⟨pc', frames', move, same⟩ := enterRepeat_pastBracket found kind
      refine .inl ⟨pc', frames', move, ?_⟩
      simp only [runBlock, kind, same]
    | repeatEnd =>
      have none : e.frames = [] := outside (Nat.le_of_eq (Program.levelEnd_repeatEnd found kind))
      refine .inl ⟨e.pc + 1, [], none ▸ .stray found kind, ?_⟩
      simp only [runBlock, kind, Execution.moveTo, ← none]
    | _ =>
      have prim : b.kind.isPrimitive := by rw [kind]; rfl
      exact .inr (.inl ⟨b, rfl, prim, runBlock_of_primitive prim e⟩)

/-- **What a pass does**, as long as the run goes on. -/
theorem pass_cases (live : e.Live) (h : p.program.Nested e.pc e.frames) :
    (∃ pc' frames', p.program.PastBracket e.pc e.frames pc' frames' ∧
      p.pass e = .onward (e.moveTo pc' frames')) ∨
    (∃ b, p.program.blocks[e.pc]? = some b ∧ b.kind.isPrimitive ∧
      p.pass e = p.runPrimitive e b) ∨
    (e.frames = [] ∧ p.program.length ≤ e.pc ∧ p.pass e = e.halt (p.endOutcome e.robot)) := by
  cases frames : e.frames with
  | nil =>
    have look : p.pass e = p.runNext e := by
      simp only [pass, live.halted, live.cancel, frames, Bool.false_eq_true, if_false]
    have next := runNext_cases h (by simp [frames])
    rwa [frames, ← look] at next
  | cons f outer =>
    have look : p.pass e =
        if f.stop ≤ e.pc then .onward (e.endBody f outer) else p.runNext e := by
      simp only [pass, live.halted, live.cancel, frames, Bool.false_eq_true, if_false]
    rw [look]
    by_cases ended : f.stop ≤ e.pc
    · rw [if_pos ended, Execution.endBody]
      by_cases more : 0 < f.remaining - 1
      · exact .inl ⟨_, _, .again ended more, by rw [if_pos more]; rfl⟩
      · exact .inl ⟨_, _, .leave ended more, by rw [if_neg more]; rfl⟩
    · have next := runNext_cases h (by simpa [frames] using Nat.lt_of_not_le ended)
      rw [frames] at next
      rwa [if_neg ended]

/-! ## One step -/

/-- Passes lead past brackets to the first primitive block, or to the end of the program. -/
theorem passes_cases {fuel : Nat} (live : e.Live) (h : p.program.Nested e.pc e.frames)
    (enough : p.program.weight e.pc e.frames < fuel) :
    ∃ pc frames, p.program.Nested pc frames ∧ p.program.remainder pc frames = p.remainder e ∧
      ((∃ b, p.program.blocks[pc]? = some b ∧ b.kind.isPrimitive ∧
          p.passes fuel e = p.runPrimitive (e.moveTo pc frames) b) ∨
        (p.remainder e = [] ∧
          p.passes fuel e = (e.moveTo pc frames).halt (p.endOutcome e.robot))) := by
  induction fuel generalizing e with
  | zero => exact absurd enough (Nat.not_lt_zero _)
  | succ fuel ih =>
    rw [passes]
    rcases pass_cases live h with ⟨pc, frames, move, onward⟩ | ⟨b, found, prim, run⟩ |
      ⟨outside, behind, ended⟩
    · rw [onward]
      have lighter := move.weight_lt h
      have live' : (e.moveTo pc frames).Live := ⟨live.halted, live.cancel⟩
      obtain ⟨pc', frames', nested, same, rest⟩ := ih live' (move.nested h)
        (Nat.lt_of_lt_of_le lighter (Nat.le_of_lt_succ enough))
      have still : p.remainder (e.moveTo pc frames) = p.remainder e := move.remainder_eq h
      rw [still] at same rest
      exact ⟨pc', frames', nested, same, rest⟩
    · refine ⟨e.pc, e.frames, h, rfl, .inl ⟨b, found, prim, ?_⟩⟩
      obtain ⟨s, e', done⟩ := runPrimitive_eq_done p e b
      rw [run, Execution.moveTo_self, done]
    · have nothing : p.remainder e = [] := by
        rw [remainder, outside, Program.remainder_eq_nil behind]
      refine ⟨e.pc, e.frames, h, rfl, .inr ⟨nothing, ?_⟩⟩
      rw [ended]
      rfl

theorem weight_lt_passLimit (h : p.program.Nested e.pc e.frames) :
    p.program.weight e.pc e.frames < p.passLimit :=
  Nat.lt_succ_of_le (Program.weight_le h)

theorem step_end (live : e.Live) (h : p.program.Nested e.pc e.frames)
    (nothing : p.remainder e = []) :
    ∃ pc frames, p.program.Nested pc frames ∧ p.program.remainder pc frames = [] ∧
      p.step e = (.halted (p.endOutcome e.robot),
        { e.moveTo pc frames with halted := some (p.endOutcome e.robot) }) := by
  obtain ⟨pc, frames, nested, same, ⟨b, found, prim, -⟩ | ⟨-, ended⟩⟩ :=
    passes_cases live h (weight_lt_passLimit h)
  · rw [nothing, Program.remainder_primitive found prim] at same
    cases same
  · refine ⟨pc, frames, nested, same.trans nothing, ?_⟩
    rw [step, ended]
    rfl

/-- What is first to come is a primitive block, and a step comes to it. -/
theorem passes_cons {rest : List Nat} (live : e.Live) (h : p.program.Nested e.pc e.frames)
    (left : p.remainder e = i :: rest) :
    ∃ b frames, p.program.blocks[i]? = some b ∧ b.kind.isPrimitive ∧ p.program.Nested i frames ∧
      p.program.remainder (i + 1) frames = rest ∧
      p.passes p.passLimit e = p.runPrimitive (e.moveTo i frames) b := by
  obtain ⟨pc, frames, nested, same, ⟨b, found, prim, run⟩ | ⟨nothing, -⟩⟩ :=
    passes_cases live h (weight_lt_passLimit h)
  · rw [left, Program.remainder_primitive found prim, List.cons.injEq] at same
    obtain ⟨rfl, later⟩ := same
    exact ⟨b, frames, found, prim, nested, later, run⟩
  · rw [left] at nothing
    cases nothing

theorem step_executed {rest : List Nat} {after : Robot} (live : e.Live)
    (h : p.program.Nested e.pc e.frames) (left : p.remainder e = i :: rest)
    (found : p.program.blocks[i]? = some b) (moves : b.kind.act p.maze e.robot = some after) :
    ∃ frames, p.program.Nested (i + 1) frames ∧ p.program.remainder (i + 1) frames = rest ∧
      p.step e = (.executed after (e.steps + 1), e.doneAt i b after frames) := by
  obtain ⟨b', frames, found', prim, nested, later, run⟩ := passes_cons live h left
  obtain rfl : b = b' := Option.some.inj (found.symm.trans found')
  refine ⟨frames, nested.primitive found prim, later, ?_⟩
  have result : p.runPrimitive (e.moveTo i frames) b = (e.moveTo i frames).complete b after := by
    rw [runPrimitive, show (e.moveTo i frames).robot = e.robot from rfl, moves]
  rw [step, run, result]
  rfl

theorem step_blocked {rest : List Nat} (live : e.Live) (h : p.program.Nested e.pc e.frames)
    (left : p.remainder e = i :: rest) (found : p.program.blocks[i]? = some b)
    (blocked : b.kind.act p.maze e.robot = none) :
    ∃ frames, p.program.Nested i frames ∧ p.program.remainder i frames = i :: rest ∧
      p.step e = (.halted .wallCollision, e.blockedAt i b frames) := by
  obtain ⟨b', frames, found', prim, nested, later, run⟩ := passes_cons live h left
  obtain rfl : b = b' := Option.some.inj (found.symm.trans found')
  refine ⟨frames, nested, by rw [Program.remainder_primitive found prim, later], ?_⟩
  have result : p.runPrimitive (e.moveTo i frames) b = (e.moveTo i frames).collide b := by
    rw [runPrimitive, show (e.moveTo i frames).robot = e.robot from rfl, blocked]
  rw [step, run, result]
  rfl

end Plan

end Labyrinth
