import Labyrinth.Run.Checked
import Labyrinth.Proofs.Program.Unmatched
import Labyrinth.Proofs.Run.Termination

/-!
# The bookkeeping of a run never fails

**Theorem (`bookkeeping_never_fails`).** A run in which every difference, every count and every
look-up is checked goes like the run that checks nothing, however it is stepped and told to stop
before it is finished. In every state that it comes to the counter and the active repeats are in
order.

Most checks follow from the nesting of the counter in the active repeats, which says what the stack
may hold (`Nested.pairwise`, `Execution.inOrder`). That no count of steps is too large for its word
is a matter of the budget: a program whose steps would reach the ceiling is never run, and a word
holds the ceiling (`Reachable.steps_lt`).
-/

namespace Labyrinth

open Program

namespace Program

variable {p : Program} {pc : Nat} {frames : List Frame}

/-! ## The order of the active repeats -/

theorem Nested.le_stop (h : p.Nested pc frames) : ∀ f ∈ frames, pc ≤ f.stop + 1 := by
  induction frames generalizing pc with
  | nil => simp
  | cons f outer ih =>
    obtain ⟨bound, holds, -, around⟩ := h
    have here : pc ≤ f.stop + 1 := holds.levelEnd_eq ▸ le_levelEnd_succ bound
    refine List.forall_mem_cons.2 ⟨here, fun g mem => ?_⟩
    exact here.trans (ih around g mem)

/-- The active repeats stand one within the other. -/
theorem Nested.pairwise (h : p.Nested pc frames) :
    frames.Pairwise fun inner outer => outer.start < inner.start ∧ inner.stop ≤ outer.stop := by
  induction frames generalizing pc with
  | nil => exact .nil
  | cons f outer ih =>
    obtain ⟨-, -, below, around⟩ := h
    refine List.pairwise_cons.2 ⟨fun g mem => ⟨below g mem, ?_⟩, ih around⟩
    exact Nat.le_of_succ_le_succ (around.le_stop g mem)

/-- Each active repeat holds wherever the counter stood when the one within it was entered. -/
theorem Nested.holds (h : p.Nested pc frames) : ∀ f ∈ frames, ∃ pc', f.Holds p pc' := by
  induction frames generalizing pc with
  | nil => simp
  | cons f outer ih => exact List.forall_mem_cons.2 ⟨⟨pc, h.2.1⟩, ih h.2.2.2⟩

end Program

theorem Execution.inOrder {e : Execution} {program : Program}
    (h : program.Nested e.pc e.frames) : e.InOrder program where
  pc_le := h.pc_le
  starts := List.pairwise_reverse.2 (h.pairwise.imp And.left)
  stops := List.pairwise_reverse.2 (h.pairwise.imp And.right)
  start_lt := h.start_lt
  stop_eq f mem := by
    obtain ⟨pc', holds⟩ := h.holds f mem
    obtain ⟨b, found, kind, -⟩ := holds.opening
    rw [matchingEnd?_getD found kind, holds.stop_eq]
  remaining f mem := by
    obtain ⟨pc', holds⟩ := h.holds f mem
    obtain ⟨b, found, kind, few⟩ := holds.opening
    exact ⟨b, found, kind, holds.pos, few⟩

/-! ## The operations -/

theorem minus?_of_le {a b : Nat} (h : b ≤ a) : minus? a b = some (a - b) := if_pos h

theorem word?_of_lt {n : Nat} (h : n < UInt32.size) : word? n = some n := if_pos h

namespace Plan

variable {p : Plan} {robot after : Robot} {e : Execution} {f : Frame} {outer : List Frame}
  {b : Block}

theorem start?_eq (p : Plan) (robot : Robot) : p.start? robot = some (p.start robot) := by
  have counted : p.stray? = some p.program.strayCount := by
    rw [stray?, p.ends_eq, minus?_of_le p.program.countP_closed_le, strayCount]
  rw [start?, counted]
  rfl

theorem endBody?_eq (pos : 0 < f.remaining) (outer : List Frame) :
    e.endBody? f outer = some (e.endBody f outer) := by
  rw [Execution.endBody?, minus?_of_le pos]
  rfl

theorem enterRepeat?_eq (inside : e.pc < p.program.length) (b : Block) :
    p.enterRepeat? e b = some (p.enterRepeat e b) := by
  have closing : p.ends[e.pc]? = some (p.ends.getD e.pc none) := by
    rw [List.getD_eq_getElem?_getD, p.ends_eq, getElem?_matchingEnds, if_pos inside,
      Option.getD_some]
  have body : p.bodies[e.pc]? = some (p.bodyOf e.pc) := by
    have within : e.pc < p.bodies.length := by rwa [p.bodies_eq, length_bodyLengths]
    rw [bodyOf, List.getD_eq_getElem?_getD, List.getElem?_eq_getElem within, Option.getD_some]
  rw [enterRepeat?, closing, body]
  rfl

theorem complete?_eq (found : p.program.blocks[e.pc]? = some b)
    (small : e.steps + 1 < UInt32.size) (after : Robot) :
    p.complete? e after = some (e.complete b after) := by
  rw [complete?, found, word?_of_lt small]
  rfl

theorem collide?_eq (found : p.program.blocks[e.pc]? = some b) :
    p.collide? e = some (e.collide b) := by
  rw [collide?, found]
  rfl

/-! ## One look -/

/-- A word holds the steps, with the block at the counter counted as done. -/
theorem Reachable.steps_lt (h : p.Reachable robot e) (running : e.halted = none)
    (found : p.program.blocks[e.pc]? = some b) (prim : b.kind.isPrimitive) :
    e.steps + 1 < UInt32.size := by
  have within := h.not_overBudget running
  rw [overBudget_iff] at within
  have counted := h.consistent.counted
  rw [remainder, remainder_primitive found prim, List.length_cons] at counted
  have ceiling := p.config.maxSteps.toNat_lt_size
  omega

theorem Reachable.runBlock?_eq (h : p.Reachable robot e) (running : e.halted = none)
    (found : p.program.blocks[e.pc]? = some b) : p.runBlock? e b = some (p.runBlock e b) := by
  have inside := lt_length_of_getElem? found
  cases kind : b.kind with
  | repeatStart => simp only [runBlock?, runBlock, kind, enterRepeat?_eq inside, Option.map_some]
  | repeatEnd => simp only [runBlock?, runBlock, kind]
  | _ =>
    have small := h.steps_lt running found (by rw [kind]; rfl)
    simp only [runBlock?, runBlock, kind, complete?_eq found small, collide?_eq found]
    generalize BlockKind.act p.maze e.robot _ = moved
    cases moved <;> rfl

theorem Reachable.runNext?_eq (h : p.Reachable robot e) (running : e.halted = none) :
    p.runNext? e = some (p.runNext e) := by
  unfold runNext? runNext
  cases found : p.program.blocks[e.pc]? with
  | none => rfl
  | some b => exact h.runBlock?_eq running found

/-- **A look that is checked is a look.** -/
theorem Reachable.pass?_eq (h : p.Reachable robot e) : p.pass? e = some (p.pass e) := by
  unfold pass? pass
  cases running : e.halted with
  | some o => rfl
  | none =>
    cases told : e.cancelRequested with
    | true => rfl
    | false =>
      have next := h.runNext?_eq running
      cases frames : e.frames with
      | nil => exact next
      | cons f outer =>
        have nested := h.consistent.nested
        rw [frames] at nested
        have body := endBody?_eq (e := e) nested.2.1.pos outer
        by_cases ended : f.stop ≤ e.pc
        · simp [ended, body]
        · simp [ended, next]

/-! ## Many looks -/

theorem Reachable.passes?_eq (h : p.Reachable robot e) (fuel : Nat) :
    p.passes? fuel e = some (p.passes fuel e) := by
  induction fuel generalizing e with
  | zero => rfl
  | succ fuel ih =>
    rw [passes?, h.pass?_eq, Plan.passes]
    cases look : p.pass e with
    | onward next => exact ih (h.onward look)
    | done s last => rfl

theorem Reachable.step?_eq (h : p.Reachable robot e) : p.step? e = some (p.step e) := by
  rw [step?, h.passes?_eq, h.passes_passLimit]
  rfl

theorem Reachable.turn?_eq (h : p.Reachable robot e) (t : Turn) :
    p.turn? e t = some (p.turn e t) := by
  cases t with
  | step =>
    rw [turn?, h.step?_eq]
    rfl
  | stepCancelled looks =>
    have stopped : p.stepCancelled? looks e = some (p.stepCancelled looks e) := by
      rw [stepCancelled?, h.passes?_eq, stepCancelled]
      have passed := h.passes looks
      cases amid : p.passes looks e with
      | onward next =>
        rw [amid] at passed
        exact passed.cancel.step?_eq
      | done s last => rfl
    rw [turn?, stopped]
    rfl
  | cancel => rfl

theorem Reachable.turns?_eq (h : p.Reachable robot e) (ts : List Turn) :
    p.turns? ts e = some (p.turns ts e) := by
  induction ts generalizing e with
  | nil => rfl
  | cons t rest ih =>
    have next : p.Reachable robot (p.turn e t).2 := h.turns [t]
    rw [turns?, h.turn?_eq]
    simp only [Option.bind_eq_bind, Option.bind_some, ih next]
    rfl

theorem Reachable.exhaust?_eq (h : p.Reachable robot e) {fuel : Nat}
    (ends : (p.exhaust fuel e).2.halted = some (p.exhaust fuel e).1) :
    p.exhaust? fuel e = some (p.exhaust fuel e) := by
  induction fuel generalizing e with
  | zero =>
    have halted : e.halted = some .cancelled := ends
    rw [exhaust?, halted]
    rfl
  | succ fuel ih =>
    have stepped := h.step
    rw [exhaust?, h.step?_eq, Plan.exhaust]
    rw [Plan.exhaust] at ends
    rcases eq : p.step e with ⟨s, next⟩
    rw [eq] at stepped ends
    cases s with
    | executed r n => exact ih stepped ends
    | halted o => rfl

end Plan

/-- **The bookkeeping of a run never fails**, and keeps the counter and the active repeats in
order. -/
theorem Plan.bookkeeping_never_fails (m : Maze) (program : Program) (config : RunConfig)
    (robot : Robot) :
    let p := Plan.of m program config
    (∀ ts, p.checkedRun robot ts =
      some ((p.turns ts (p.start robot)).1, p.finish (p.turns ts (p.start robot)).2)) ∧
    ∀ e, p.Reachable robot e → e.InOrder program := by
  intro p
  refine ⟨fun ts => ?_, fun e reached => Execution.inOrder reached.consistent.nested⟩
  have first : p.Reachable robot (p.start robot) := .start
  have last := first.turns ts
  have ended := last.exhaust?_eq last.halted_exhaust
  rw [checkedRun, start?_eq]
  simp only [Option.bind_eq_bind, Option.bind_some, first.turns?_eq, ended]
  rfl

/-- A repeat without a pass left is in no state of a run: its count would go below zero. -/
example :
    let m : Maze := .close ⟨1, 1⟩ .origin .origin [] (by decide) (by decide) (by decide) (by decide)
    let program : Program := ⟨[⟨"again", .repeatStart, some 2⟩, ⟨"end", .repeatEnd, none⟩]⟩
    let e : Execution := { robot := ⟨.origin, .up⟩, pc := 1, frames := [⟨0, 1, 0⟩] }
    (Plan.of m program {}).step? e = none :=
  rfl

end Labyrinth
