import Labyrinth.Proofs.Run.Record
import Labyrinth.Run.Replay

/-!
# A replay shows the run

**Theorem (`replay_shows_run`).** However one moves through the trace of a run, the pose shown after
the entry at a position is the pose of the run after as many steps, when nobody stops it. Moving
back gives the pose that is then shown. One can move on until the last entry has been applied, and
what cannot be done leaves the replay as it is.

Going forward a replay shows where an entry ended, going back it gives where an entry began. The two
agree because each entry begins where the one before it ended (`Program.Tells.before`).
-/

namespace Labyrinth

namespace Replay

variable {r : Replay} {i : Nat}

/-! ## Moves -/

theorem seek_of_le (h : r.entries.length ≤ i) : r.seek i = (none, r) :=
  dif_neg (Nat.not_lt_of_le h)

theorem seek_fst_eq_none : (r.seek i).1 = none ↔ r.entries.length ≤ i := by
  unfold seek
  split <;> simp <;> omega

theorem forward_fst_eq_none : r.forward.1 = none ↔ r.AtEnd := seek_fst_eq_none

theorem forward_of_atEnd (h : r.AtEnd) : r.forward.2 = r := by
  rw [forward, seek_of_le h]

theorem seek_keeps (r : Replay) (i : Nat) :
    (r.seek i).2.entries = r.entries ∧ (r.seek i).2.initial = r.initial := by
  unfold seek
  split <;> exact ⟨rfl, rfl⟩

theorem move_keeps (r : Replay) (mv : Move) :
    (r.move mv).entries = r.entries ∧ (r.move mv).initial = r.initial := by
  cases mv with
  | forward => exact r.seek_keeps r.nextIndex
  | backward =>
    rcases r with ⟨initial, entries, _ | place⟩
    · exact ⟨rfl, rfl⟩
    · exact ⟨rfl, rfl⟩
  | seek i => exact r.seek_keeps i
  | reset => exact ⟨rfl, rfl⟩

theorem afterMoves_keeps (moves : List Move) (r : Replay) :
    (r.afterMoves moves).entries = r.entries ∧ (r.afterMoves moves).initial = r.initial := by
  induction moves generalizing r with
  | nil => exact ⟨rfl, rfl⟩
  | cons mv rest ih =>
    obtain ⟨entries, initial⟩ := ih (r.move mv)
    obtain ⟨entries', initial'⟩ := r.move_keeps mv
    exact ⟨entries.trans entries', initial.trans initial'⟩

/-! ## Poses -/

theorem nextIndex_of_index (h : r.index? = some i) : r.nextIndex = i + 1 := by
  rw [nextIndex, h]
  rfl

theorem index_lt (h : r.index? = some i) : i < r.entries.length := by
  obtain ⟨place, -, rfl⟩ := Option.map_eq_some_iff.1 h
  exact place.isLt

/-- The pose shown is the one before the first entry, or the one after the entry last applied. -/
theorem robot_eq (r : Replay) :
    (r.initial :: r.entries.map (·.after))[r.nextIndex]? = some r.robot := by
  rcases r with ⟨initial, entries, _ | ⟨i, inside⟩⟩
  · rfl
  · simp [nextIndex, index?, robot, current?, inside]

/-- If each entry begins where the one before it ended, moving back gives the pose that is then
shown. -/
theorem robot_backward {pose : Robot} (back : r.backward.1 = some pose)
    (chained : ∀ (i : Nat) (entry : TraceEntry), r.entries[i]? = some entry →
      (r.initial :: r.entries.map (·.after))[i]? = some entry.before) :
    r.backward.2.robot = pose := by
  rcases r with ⟨initial, entries, _ | ⟨i, inside⟩⟩
  · cases back
  · obtain rfl : entries[i].before = pose := Option.some.inj back
    have shown := robot_eq (backward ⟨initial, entries, some ⟨i, inside⟩⟩).2
    have place : (backward ⟨initial, entries, some ⟨i, inside⟩⟩).2.nextIndex = i := by
      cases i with
      | zero => rfl
      | succ i => rfl
    rw [place] at shown
    have began := chained i entries[i] (List.getElem?_eq_getElem inside)
    exact Option.some.inj (shown.symm.trans began)

end Replay

/-- **A replay shows the run.** -/
theorem Plan.replay_shows_run (m : Maze) (program : Program) (config : RunConfig) (robot : Robot)
    (recorded : config.recordTrace = true) {e : Execution}
    (reached : (Plan.of m program config).Reachable robot e) :
    let p := Plan.of m program config
    ∃ trace, (p.finish e).verdict.trace = some trace ∧
      ∀ moves : List Replay.Move,
        let r := Replay.afterMoves moves { initial := robot, entries := trace }
        (r.index? = none → r.robot = robot) ∧
          (∀ i, r.index? = some i →
            i < trace.length ∧ r.robot = (p.advance (i + 1) (p.start robot)).robot) ∧
          (∀ pose, r.backward.1 = some pose → r.backward.2.robot = pose) ∧
          (r.forward.1 = none ↔ r.AtEnd) ∧ (r.AtEnd → r.forward.2 = r) ∧
          ∀ i, trace.length ≤ i → r.seek i = (none, r) := by
  intro p
  obtain ⟨trace, last, told, kept⟩ := trace_finish recorded reached
  refine ⟨trace, kept, fun moves => ?_⟩
  intro r
  obtain ⟨entries, initial⟩ : r.entries = trace ∧ r.initial = robot := Replay.afterMoves_keeps _ _
  have shown := r.robot_eq
  rw [entries, initial] at shown
  refine ⟨fun before => ?_, fun i applied => ?_, fun pose back => ?_, Replay.forward_fst_eq_none,
    Replay.forward_of_atEnd, fun i beyond => Replay.seek_of_le (entries ▸ beyond)⟩
  · have first : r.nextIndex = 0 := by rw [Replay.nextIndex, before]; rfl
    rw [first] at shown
    exact (Option.some.inj shown).symm
  · have inside : i < trace.length := entries ▸ Replay.index_lt applied
    rw [Replay.nextIndex_of_index applied, told.route inside] at shown
    exact ⟨inside, (Option.some.inj shown).symm⟩
  · refine Replay.robot_backward back fun i entry found => ?_
    rw [entries] at found
    rw [entries, initial]
    exact told.tells.before found

/-- A run into the end of a corridor, replayed to the move that was blocked and back. -/
theorem Plan.replay_shows_run_corridor :
    let m : Maze := .close ⟨2, 1⟩ .origin ⟨1, 0⟩ [] (by decide) (by decide) (by decide) (by decide)
    let b : Block := ⟨"b", .forward, none⟩
    let program : Program := ⟨[⟨"a", .repeatStart, some 2⟩, b]⟩
    let config : RunConfig := { recordTrace := true }
    let robot : Robot := ⟨.origin, .right⟩
    let trace := [.done 1 b robot ⟨⟨1, 0⟩, .right⟩, .blocked 1 b ⟨⟨1, 0⟩, .right⟩]
    let r := Replay.afterMoves [.seek 7, .seek 1, .forward, .backward]
      { initial := robot, entries := trace }
    config.recordTrace = true ∧
      (Plan.of m program config).Reachable robot ((Plan.of m program config).start robot) ∧
      ((Plan.of m program config).execute robot).verdict.trace = some trace ∧
      r.index? = some 0 ∧ r.robot = ⟨⟨1, 0⟩, .right⟩ ∧
      r.robot = ((Plan.of m program config).advance 1
        ((Plan.of m program config).start robot)).robot := by
  intro m b program config robot trace r
  obtain ⟨found, kept, shows⟩ := Plan.replay_shows_run m program config robot rfl .start
  have run : ((Plan.of m program config).execute robot).verdict.trace = some trace := by decide
  have finished := run
  rw [Plan.execute] at finished
  obtain rfl : trace = found := Option.some.inj (finished.symm.trans kept)
  have place : r.index? = some 0 := by decide
  have shown := ((shows [.seek 7, .seek 1, .forward, .backward]).2.1 0 place).2
  exact ⟨rfl, .start, run, place, by decide, shown⟩

end Labyrinth
