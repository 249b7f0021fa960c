import Labyrinth.Proofs.Run.Account

/-!
# Every step returns

**Theorem (`step_returns`).** In every state that a run comes to, a step returns after at most
`3 * length + 3` looks at the state, whatever the counts of the repeats are and whenever the run is
told to stop. So finishing a run ends, after a number of looks that the program and the budget
bound.

The bound is told of runs under way (`Plan.Underway`), which are given no number of looks. A look
that does not end a step makes the weight of the state smaller (`Plan.weight_lt_of_onward`), and a
weight is always below the bound, so every block done adds one bound to what a run can look
(`Underway.looks_add_weight_le`).
-/

namespace Labyrinth

namespace Plan

variable {p : Plan} {robot r : Robot} {e e' : Execution} {n looks blocks : Nat}

/-- A run under way: after so many looks at its state, and so many blocks done, the first state has
become the second. At any point it may have been told to stop. -/
inductive Underway (p : Plan) (e : Execution) : Nat → Nat → Execution → Prop
  | here : Underway p e 0 0 e
  | cancel {looks blocks : Nat} {e' : Execution} :
      Underway p e looks blocks e' → Underway p e looks blocks e'.cancel
  | onward {looks blocks : Nat} {e' next : Execution} :
      Underway p e looks blocks e' → p.pass e' = .onward next →
      Underway p e (looks + 1) blocks next
  | done {looks blocks : Nat} {e' next : Execution} {r : Robot} {n : Nat} :
      Underway p e looks blocks e' → p.pass e' = .done (.executed r n) next →
      Underway p e (looks + 1) (blocks + 1) next

/-- How many more looks a step can take, at most. -/
def weight (p : Plan) (e : Execution) : Nat := p.program.weight e.pc e.frames

/-! ## One look -/

theorem live_or_halted (p : Plan) (e : Execution) :
    e.Live ∨ ∃ o e', p.pass e = .done (.halted o) e' := by
  cases halted : e.halted with
  | some o => exact .inr ⟨o, e, pass_of_halted halted⟩
  | none =>
    cases told : e.cancelRequested with
    | true => exact .inr ⟨.cancelled, _, pass_of_cancel halted told⟩
    | false => exact .inl ⟨halted, told⟩

/-- A look that does not end a step makes the weight smaller. -/
theorem weight_lt_of_onward (nested : p.program.Nested e.pc e.frames)
    (look : p.pass e = .onward e') : p.weight e' < p.weight e := by
  rcases p.live_or_halted e with live | ⟨o, last, ended⟩
  · rcases pass_cases live nested with ⟨pc, frames, move, onward⟩ | ⟨b, -, -, run⟩ | ⟨-, -, last⟩
    · obtain rfl := Pass.onward.inj (onward.symm.trans look)
      exact move.weight_lt nested
    · obtain ⟨s, next, done⟩ := runPrimitive_eq_done p e b
      cases (run.trans done).symm.trans look
    · cases last.symm.trans look
  · cases ended.symm.trans look

theorem steps_of_executed (nested : p.program.Nested e.pc e.frames)
    (look : p.pass e = .done (.executed r n) e') : e'.steps = e.steps + 1 := by
  rcases p.live_or_halted e with live | ⟨o, last, ended⟩
  · rcases pass_cases live nested with ⟨pc, frames, -, onward⟩ | ⟨b, -, -, run⟩ | ⟨-, -, last⟩
    · cases onward.symm.trans look
    · rw [run, runPrimitive] at look
      split at look
      · obtain ⟨-, rfl⟩ := Pass.done.inj look
        rfl
      · cases look
    · cases last.symm.trans look
  · cases ended.symm.trans look

theorem Reachable.weight_lt (h : p.Reachable robot e) : p.weight e < p.passLimit :=
  weight_lt_passLimit h.consistent.nested

/-! ## Many looks -/

theorem Underway.reachable (h : p.Reachable robot e) (run : p.Underway e looks blocks e') :
    p.Reachable robot e' := by
  induction run with
  | here => exact h
  | cancel _ ih => exact ih.cancel
  | onward _ look ih => exact ih.onward look
  | done _ look ih => exact ih.done look

/-- Each look lowers the weight or runs a block, after which the weight is below the limit. -/
theorem Underway.looks_add_weight_le (h : p.Reachable robot e)
    (run : p.Underway e looks blocks e') :
    looks + p.weight e' ≤ p.weight e + blocks * p.passLimit := by
  induction run with
  | here => omega
  | cancel _ ih => exact ih
  | onward before look ih =>
    have nested := (before.reachable h).consistent.nested
    have lighter := weight_lt_of_onward nested look
    omega
  | done before look ih =>
    have below := ((before.reachable h).done look).weight_lt
    rw [Nat.succ_mul]
    omega

theorem Underway.looks_lt (h : p.Reachable robot e) (run : p.Underway e looks blocks e') :
    looks < (blocks + 1) * p.passLimit := by
  have paid := run.looks_add_weight_le h
  have below := h.weight_lt
  rw [Nat.succ_mul]
  omega

theorem Underway.steps_eq (h : p.Reachable robot e) (run : p.Underway e looks blocks e') :
    e'.steps = e.steps + blocks := by
  induction run with
  | here => rfl
  | cancel _ ih => exact ih
  | onward before look ih =>
    obtain ⟨pc, frames, rfl⟩ := pass_onward look
    exact ih
  | done before look ih =>
    rw [steps_of_executed (before.reachable h).consistent.nested look, ih]
    rfl

theorem Underway.of_halted {o : Outcome} (halted : e.halted = some o)
    (run : p.Underway e looks blocks e') : blocks = 0 ∧ e'.halted = some o := by
  induction run with
  | here => exact ⟨rfl, halted⟩
  | cancel _ ih => exact ih
  | onward _ look ih => cases (pass_of_halted ih.2).symm.trans look
  | done _ look ih => cases (pass_of_halted ih.2).symm.trans look

theorem Underway.blocks_le (h : p.Reachable robot e) (run : p.Underway e looks blocks e') :
    blocks ≤ p.program.exactLength - e.steps ∧ blocks ≤ p.config.maxSteps.toNat - e.steps := by
  cases halted : e.halted with
  | some o =>
    obtain ⟨rfl, -⟩ := run.of_halted halted
    exact ⟨Nat.zero_le _, Nat.zero_le _⟩
  | none =>
    have within := h.not_overBudget halted
    rw [overBudget_iff] at within
    have counted := run.steps_eq h
    have bound := (run.reachable h).steps_le
    omega

/-! ## More passes than needed -/

theorem passes_of_le {k : Nat} (ended : p.passes n e = .done s e') (le : n ≤ k) :
    p.passes k e = .done s e' := by
  induction n generalizing e k with
  | zero => cases ended
  | succ n ih =>
    obtain ⟨k, rfl⟩ := Nat.exists_eq_add_of_le' (Nat.lt_of_lt_of_le n.succ_pos le)
    rw [passes] at ended ⊢
    cases look : p.pass e with
    | onward next =>
      rw [look] at ended
      exact ih ended (Nat.le_of_succ_le_succ le)
    | done s' last =>
      rw [look] at ended
      exact ended

theorem exhaust_of_le {k : Nat} (ended : (p.exhaust n e).2.halted = some (p.exhaust n e).1)
    (le : n ≤ k) : p.exhaust k e = p.exhaust n e := by
  induction n generalizing e k with
  | zero =>
    cases k with
    | zero => rfl
    | succ k => exact exhaust_of_halted k (step_of_halted ended)
  | succ n ih =>
    obtain ⟨k, rfl⟩ := Nat.exists_eq_add_of_le' (Nat.lt_of_lt_of_le n.succ_pos le)
    rw [exhaust] at ended ⊢
    rw [exhaust]
    rcases stepped : p.step e with ⟨s, next⟩
    rw [stepped] at ended
    cases s with
    | executed r m => exact ih ended (Nat.le_of_succ_le_succ le)
    | halted o => rfl

/-! ## Steps -/

theorem Underway.passes {k : Nat} {next : Execution} (run : p.Underway e looks blocks e')
    (passed : p.passes k e' = .onward next) : p.Underway e (looks + k) blocks next := by
  induction k generalizing looks e' with
  | zero =>
    obtain rfl := Pass.onward.inj passed
    exact run
  | succ k ih =>
    rw [Plan.passes] at passed
    cases look : p.pass e' with
    | onward amid =>
      rw [look] at passed
      have later := ih (run.onward look) passed
      rwa [Nat.add_right_comm] at later
    | done s last =>
      rw [look] at passed
      cases passed

/-- No step is given up for want of passes. -/
theorem Reachable.passes_passLimit (h : p.Reachable robot e) :
    p.passes p.passLimit e = .done (p.step e).1 (p.step e).2 := by
  cases passed : p.passes p.passLimit e with
  | onward amid =>
    have looked := (Underway.here.passes passed).looks_lt h
    omega
  | done s last => rw [Plan.step, passed]

end Plan

/-- **Every step returns**, and so every run that is finished ends. -/
theorem Plan.step_returns (m : Maze) (program : Program) (config : RunConfig) (robot : Robot)
    (e : Execution) (reached : (Plan.of m program config).Reachable robot e) :
    let p := Plan.of m program config
    let limit := 3 * program.length + 3
    (∀ looks e', p.Underway e looks 0 e' → looks < limit) ∧
      (∀ fuel, limit ≤ fuel → p.passes fuel e = .done (p.step e).1 (p.step e).2) ∧
      (∀ looks blocks e', p.Underway e looks blocks e' →
        looks < (blocks + 1) * limit ∧ blocks ≤ program.exactLength - e.steps ∧
          blocks ≤ config.maxSteps.toNat - e.steps) ∧
      ∃ o last, last.halted = some o ∧ p.finish e = p.report o last ∧
        ∀ steps, p.stepLimit ≤ steps → p.exhaust steps e = (o, last) := by
  intro p limit
  refine ⟨fun looks e' run => ?_, fun fuel enough => passes_of_le reached.passes_passLimit enough,
    fun looks blocks e' run => ⟨run.looks_lt reached, run.blocks_le reached⟩,
    (p.exhaust p.stepLimit e).1, (p.exhaust p.stepLimit e).2, reached.halted_exhaust, rfl,
    fun steps enough => exhaust_of_le reached.halted_exhaust enough⟩
  have looked := run.looks_lt reached
  rwa [Nat.zero_add, Nat.one_mul] at looked

/-- A repeat that runs nothing, as often as can be asked for, within one that waits three times. -/
theorem Plan.step_returns_nested :
    let m : Maze := .close ⟨1, 1⟩ .origin .origin [] (by decide) (by decide) (by decide) (by decide)
    let program : Program := ⟨[⟨"outer", .repeatStart, some 3⟩, ⟨"inner", .repeatStart,
      some 4294967295⟩, ⟨"end", .repeatEnd, none⟩, ⟨"wait", .wait, none⟩, ⟨"end", .repeatEnd, none⟩]⟩
    let p := Plan.of m program {}
    let e := (p.step (p.start ⟨.origin, .up⟩)).2
    p.Reachable ⟨.origin, .up⟩ e ∧ e.steps = 1 ∧ e.halted = none ∧
      (∀ looks e', p.Underway e looks 0 e' → looks < 18) ∧
      (∀ looks blocks e', p.Underway e looks blocks e' → looks < (blocks + 1) * 18 ∧ blocks ≤ 2) ∧
      (p.finish e).verdict.steps = 3 := by
  intro m program p e
  have reached : p.Reachable ⟨.origin, .up⟩ e := Plan.Reachable.start.step
  obtain ⟨oneStep, -, wholeRun, -⟩ := step_returns m program {} ⟨.origin, .up⟩ e reached
  refine ⟨reached, by decide, by decide, oneStep, fun looks blocks e' run => ?_, by decide⟩
  obtain ⟨looked, done, -⟩ := wholeRun looks blocks e' run
  exact ⟨looked, done⟩

end Labyrinth
