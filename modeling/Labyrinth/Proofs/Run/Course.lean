import Labyrinth.Proofs.Run.Reachable
import Labyrinth.Run.History
import Labyrinth.Run.Unrolled

/-!
# The course of a run

What comes after a state of a run that nobody stops, step by step.

**The course** (`Plan.Course`). Each step does the block that the next entry tells of, until a step
ends the run. A run that has ended stays where it is, and nothing comes after.

**Theorem (`exists_course`).** From a state that goes on, the course is what running the rest of the
program written out comes to.

**Along the course.** Steps to the end come to its last state (`Course.exhaust`). The state after as
many steps as given (`Plan.advance`) has the rest of the course before it (`Course.advance`). The
entries tell what it is (`Course.stage`) until they are used up; then it is the last state
(`Course.advance_eq_last`).
-/

namespace Labyrinth

namespace Execution

/-- One state follows another by doing the block that an entry tells of. -/
structure Does (e : Execution) (entry : TraceEntry) (e' : Execution) : Prop where
  success : entry.success = true
  robot : e'.robot = entry.after
  steps : e'.steps = e.steps + 1
  trace : e'.trace = e.trace.map (·.push entry)

/-- One state follows another by ending the run, at a block that was blocked if there is one. -/
structure Ends (e : Execution) (blocked : Option TraceEntry) (o : Outcome) (last : Execution) :
    Prop where
  halted : last.halted = some o
  robot : last.robot = e.robot
  steps : last.steps = e.steps
  trace : last.trace = e.trace.map (· ++ blocked.toList.toArray)
  failed : ∀ entry ∈ blocked, entry.success = false

/-- One state comes after another by doing the first `n` blocks that some entries tell of. -/
structure Stage (e : Execution) (entries : List TraceEntry) (n : Nat) (e' : Execution) : Prop where
  robot : (e.robot :: TraceEntry.poses entries)[n]? = some e'.robot
  steps : e'.steps = e.steps + n
  trace : e'.trace = e.trace.map (· ++ (entries.take n).toArray)

end Execution

namespace Plan

variable {p : Plan} {e e' last : Execution} {entry : TraceEntry} {entries : List TraceEntry}
  {o : Outcome}

/-- What comes after a state, up to an outcome and a last state. -/
inductive Course (p : Plan) : Execution → List TraceEntry → Outcome → Execution → Prop
  | stays {e : Execution} {o : Outcome} : e.halted = some o → Course p e [] o e
  | ends {e last : Execution} {blocked : Option TraceEntry} {o : Outcome} : e.Live →
      p.step e = (.halted o, last) → e.Ends blocked o last → Course p e blocked.toList o last
  | does {e e' last : Execution} {entry : TraceEntry} {rest : List TraceEntry} {o : Outcome} :
      e.Live → e'.Live → p.step e = (.executed entry.after (e.steps + 1), e') → e.Does entry e' →
      Course p e' rest o last → Course p e (entry :: rest) o last

/-- The state after as many steps as given. -/
def advance (p : Plan) : Nat → Execution → Execution
  | 0, e => e
  | n + 1, e => p.advance n (p.step e).2

theorem exhaust_of_halted (fuel : Nat) (h : p.step e = (.halted o, e')) :
    p.exhaust (fuel + 1) e = (o, e') := by
  rw [exhaust, h]

theorem exhaust_of_executed {r : Robot} {n : Nat} (fuel : Nat)
    (h : p.step e = (.executed r n, e')) : p.exhaust (fuel + 1) e = p.exhaust fuel e' := by
  rw [exhaust, h]

/-! ## A run has a course -/

theorem exists_course (live : e.Live) (h : p.program.Nested e.pc e.frames) :
    let u := p.program.runPositions p.maze (p.remainder e) e.robot
    ∃ last, p.Course e u.entries u.outcome last ∧ last.robot = u.robot := by
  generalize left : p.remainder e = positions
  -- on what is still to come; each of its blocks is one step
  induction positions generalizing e with
  | nil =>
    obtain ⟨pc, frames, -, -, ended⟩ := step_end live h left
    have ends : e.Ends none (p.endOutcome e.robot)
        { e.moveTo pc frames with halted := some (p.endOutcome e.robot) } :=
      ⟨rfl, rfl, rfl, by simp [Execution.moveTo], by simp⟩
    exact ⟨_, .ends live ended ends, rfl⟩
  | cons i rest ih =>
    obtain ⟨b, -, found, -⟩ := passes_cons live h left
    cases moves : b.kind.act p.maze e.robot with
    | none =>
      obtain ⟨frames, -, -, ended⟩ := step_blocked live h left found moves
      have ends : e.Ends (some (.blocked i b e.robot)) .wallCollision (e.blockedAt i b frames) :=
        ⟨rfl, rfl, rfl, by simp [Execution.blockedAt], by simp [TraceEntry.blocked]⟩
      simp only [Program.runPositions, found, moves]
      exact ⟨_, .ends live ended ends, rfl⟩
    | some after =>
      obtain ⟨frames, nested, later, ran⟩ := step_executed live h left found moves
      have live' : (e.doneAt i b after frames).Live := ⟨live.halted, live.cancel⟩
      obtain ⟨last, course, pose⟩ := ih live' nested later
      simp only [Program.runPositions, found, moves]
      exact ⟨last, .does live live' ran ⟨rfl, rfl, rfl, rfl⟩ course, pose⟩

/-! ## Its last state -/

theorem Course.halted (h : p.Course e entries o last) : last.halted = some o := by
  induction h with
  | stays halted => exact halted
  | ends _ _ ends => exact ends.halted
  | does _ _ _ _ _ ih => exact ih

/-- A state of a course that has ended has the outcome of the course. -/
theorem Course.eq_of_halted {o' : Outcome} (h : p.Course e entries o last)
    (halted : e.halted = some o') : o' = o := by
  cases h with
  | stays halted' => exact Option.some.inj (halted.symm.trans halted')
  | ends live => exact absurd (live.halted.symm.trans halted) (by simp)
  | does live => exact absurd (live.halted.symm.trans halted) (by simp)

theorem Course.trace (h : p.Course e entries o last) :
    last.trace = e.trace.map (· ++ entries.toArray) := by
  induction h with
  | stays => simp
  | ends _ _ ends => exact ends.trace
  | @does e e' last entry rest o _ _ _ does _ ih =>
    rw [ih, does.trace, Option.map_map]
    congr 1
    funext entries
    simp

end Plan

namespace TraceEntry

theorem length_poses (entries : List TraceEntry) :
    (poses entries).length = entries.countP (·.success) := by
  rw [poses, List.length_map, List.countP_eq_length_filter]

theorem length_poses_drop_le (entries : List TraceEntry) (n : Nat) :
    (poses (entries.drop n)).length ≤ (poses entries).length := by
  rw [length_poses, length_poses]
  exact (List.drop_sublist n entries).countP_le

theorem poses_cons {entry : TraceEntry} (success : entry.success = true)
    (rest : List TraceEntry) : poses (entry :: rest) = entry.after :: poses rest := by
  simp [poses, success]

theorem poses_of_failed {entries : List TraceEntry}
    (failed : ∀ entry ∈ entries, entry.success = false) : poses entries = [] := by
  simp only [poses, List.map_eq_nil_iff, List.filter_eq_nil_iff, Bool.not_eq_true]
  exact failed

end TraceEntry

namespace Execution

variable {e e' e'' : Execution} {entry : TraceEntry} {entries : List TraceEntry}
  {blocked : Option TraceEntry} {o : Outcome}

theorem Ends.poses_eq (h : e.Ends blocked o e') : TraceEntry.poses blocked.toList = [] :=
  TraceEntry.poses_of_failed (by simpa using h.failed)

theorem Stage.refl (e : Execution) (entries : List TraceEntry) : e.Stage entries 0 e :=
  ⟨rfl, rfl, by simp⟩

theorem Stage.cons {n : Nat} (does : e.Does entry e') (h : e'.Stage entries n e'') :
    e.Stage (entry :: entries) (n + 1) e'' where
  robot := by
    have pose := h.robot
    rw [does.robot] at pose
    rw [TraceEntry.poses_cons does.success]
    exact pose
  steps := by
    rw [h.steps, does.steps]
    omega
  trace := by
    rw [h.trace, does.trace, Option.map_map]
    congr 1
    funext told
    simp

end Execution

namespace Plan

variable {p : Plan} {e last : Execution} {entries : List TraceEntry} {o : Outcome}

theorem Course.steps (h : p.Course e entries o last) :
    last.steps = e.steps + (TraceEntry.poses entries).length := by
  induction h with
  | stays => rfl
  | ends _ _ ends => rw [ends.poses_eq, ends.steps, List.length_nil, Nat.add_zero]
  | does _ _ _ does _ ih =>
    rw [ih, does.steps, TraceEntry.poses_cons does.success, List.length_cons]
    omega

theorem Course.robot (h : p.Course e entries o last) :
    (e.robot :: TraceEntry.poses entries)[(TraceEntry.poses entries).length]? =
      some last.robot := by
  induction h with
  | stays => rfl
  | ends _ _ ends =>
    rw [ends.poses_eq, ends.robot]
    rfl
  | does _ _ _ does _ ih =>
    rw [does.robot] at ih
    rw [TraceEntry.poses_cons does.success]
    exact ih

theorem Course.exhaust (h : p.Course e entries o last) {fuel : Nat}
    (enough : (TraceEntry.poses entries).length < fuel) : p.exhaust fuel e = (o, last) := by
  induction h generalizing fuel with
  | stays halted =>
    obtain ⟨k, rfl⟩ := Nat.exists_eq_add_one.2 (Nat.zero_lt_of_lt enough)
    exact exhaust_of_halted k (step_of_halted halted)
  | ends _ ended _ =>
    obtain ⟨k, rfl⟩ := Nat.exists_eq_add_one.2 (Nat.zero_lt_of_lt enough)
    exact exhaust_of_halted k ended
  | does _ _ ran does _ ih =>
    obtain ⟨k, rfl⟩ := Nat.exists_eq_add_one.2 (Nat.zero_lt_of_lt enough)
    rw [TraceEntry.poses_cons does.success, List.length_cons] at enough
    rw [exhaust_of_executed k ran]
    exact ih (Nat.lt_of_succ_lt_succ enough)

/-! ## Along the course -/

theorem Course.step (h : p.Course e entries o last) :
    p.Course (p.step e).2 entries.tail o last := by
  cases h with
  | stays halted =>
    rw [step_of_halted halted]
    exact .stays halted
  | @ends _ _ blocked _ _ ended ends =>
    rw [ended]
    cases blocked <;> exact .stays ends.halted
  | does _ _ ran _ rest =>
    rw [ran]
    exact rest

/-- The state after some steps has the rest of the course before it. -/
theorem Course.advance (h : p.Course e entries o last) (n : Nat) :
    p.Course (p.advance n e) (entries.drop n) o last := by
  induction n generalizing e entries with
  | zero => exact h
  | succ n ih =>
    have rest := ih h.step
    rwa [List.drop_tail] at rest

theorem Course.advance_of_no_entries (h : p.Course e [] o e) (n : Nat) : p.advance n e = e := by
  induction n with
  | zero => rfl
  | succ n ih => rw [Plan.advance, step_of_halted h.halted, ih]

/-- The state after no more steps than there are blocks to be done is told by their entries. -/
theorem Course.stage (h : p.Course e entries o last) {n : Nat}
    (within : n ≤ (TraceEntry.poses entries).length) :
    e.Stage entries n (p.advance n e) := by
  induction h generalizing n with
  | stays =>
    obtain rfl := Nat.le_zero.1 within
    exact .refl _ _
  | ends _ _ ends =>
    rw [ends.poses_eq] at within
    obtain rfl := Nat.le_zero.1 within
    exact .refl _ _
  | does _ _ ran does _ ih =>
    cases n with
    | zero => exact .refl _ _
    | succ n =>
      rw [TraceEntry.poses_cons does.success] at within
      rw [Plan.advance, ran]
      exact .cons does (ih (Nat.le_of_succ_le_succ within))

/-- One step after all blocks are done the run is in its last state, and stays there. -/
theorem Course.advance_eq_last (h : p.Course e entries o last) {n : Nat}
    (beyond : (TraceEntry.poses entries).length < n) : p.advance n e = last := by
  induction h generalizing n with
  | stays halted => exact (Course.stays halted).advance_of_no_entries n
  | ends _ ended ends =>
    obtain ⟨k, rfl⟩ := Nat.exists_eq_add_one.2 (Nat.zero_lt_of_lt beyond)
    rw [Plan.advance, ended]
    exact (Course.stays ends.halted).advance_of_no_entries k
  | does _ _ ran does _ ih =>
    obtain ⟨k, rfl⟩ := Nat.exists_eq_add_one.2 (Nat.zero_lt_of_lt beyond)
    rw [TraceEntry.poses_cons does.success, List.length_cons] at beyond
    rw [Plan.advance, ran]
    exact ih (Nat.lt_of_succ_lt_succ beyond)

end Plan

end Labyrinth
