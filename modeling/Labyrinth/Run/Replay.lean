import Labyrinth.Run.Trace

/-!
# Replaying a trace

A cursor over the trace of a run, which moves forward and backward by the poses recorded. Before
the first entry it shows the pose that the run started from. A viewer may move it in any way and any
number of times (`Replay.afterMoves`).
-/

namespace Labyrinth

/-- A trace with a position in it, or before it. -/
structure Replay where
  /-- The pose that the run started from. -/
  initial : Robot
  entries : List TraceEntry
  /-- The entry last applied, if any. -/
  position : Option (Fin entries.length) := none

namespace Replay

/-- The number of entries. -/
def length (r : Replay) : Nat := r.entries.length

/-- The entry last applied. -/
def current? (r : Replay) : Option TraceEntry := r.position.map r.entries.get

/-- The pose to show. -/
def robot (r : Replay) : Robot := (r.current?.map TraceEntry.after).getD r.initial

/-- The position as a number. -/
def index? (r : Replay) : Option Nat := r.position.map Fin.val

/-- The position that the next entry has. -/
def nextIndex (r : Replay) : Nat := (r.index?.map (· + 1)).getD 0

/-- Every entry has been applied. -/
def AtEnd (r : Replay) : Prop := r.length ≤ r.nextIndex

instance (r : Replay) : Decidable r.AtEnd := inferInstanceAs (Decidable (_ ≤ _))

/-- Goes to an entry and gives it. Stays where it is if there is no such entry. -/
def seek (r : Replay) (i : Nat) : Option TraceEntry × Replay :=
  if h : i < r.entries.length then (some r.entries[i], { r with position := some ⟨i, h⟩ })
  else (none, r)

/-- Applies the next entry and gives it. -/
def forward (r : Replay) : Option TraceEntry × Replay := r.seek r.nextIndex

/-- Takes the current entry back and gives the pose before it. -/
def backward (r : Replay) : Option Robot × Replay :=
  match r.position with
  | none => (none, r)
  | some ⟨i, h⟩ =>
    (some r.entries[i].before,
      { r with position := if i = 0 then none else some ⟨i - 1, by omega⟩ })

/-- Goes before the first entry. -/
def reset (r : Replay) : Replay := { r with position := none }

/-! ## Moving through a replay -/

/-- What a viewer may do with a replay. -/
inductive Move where
  | forward
  | backward
  | seek (i : Nat)
  | reset
  deriving DecidableEq, Repr

/-- The replay after a move. -/
def move (r : Replay) : Move → Replay
  | .forward => r.forward.2
  | .backward => r.backward.2
  | .seek i => (r.seek i).2
  | .reset => r.reset

/-- The replay after some moves. -/
def afterMoves (moves : List Move) (r : Replay) : Replay := moves.foldl move r

end Replay

end Labyrinth
