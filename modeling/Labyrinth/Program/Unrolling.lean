import Labyrinth.Program.Basic

/-!
# How long a program is when unrolled

The number of primitive blocks that a program runs when every repeat is written out, found in one
pass without writing anything out. Counts stop growing at the largest 64-bit number. Repeats are
bracketed as in `Labyrinth.Program.Nesting`: an unclosed repeat spans the rest of the program, and a
stray closing bracket is nothing.
-/

namespace Labyrinth.Program

/-- The largest count that is kept apart from larger ones. -/
def countLimit : Nat := UInt64.size - 1

/-- A count, or the limit for those beyond it. -/
def capped (n : Nat) : Nat := min n countLimit

/-- A repeat that is being measured. -/
structure OpenRepeat where
  /-- The position of its opening bracket. -/
  start : Nat
  /-- How often its body is run. -/
  times : Nat
  /-- The primitives counted in its body so far. -/
  body : Nat

/-- The state of measuring a program. -/
structure Tally where
  /-- The primitives counted outside every open repeat. -/
  total : Nat := 0
  /-- The open repeats, innermost first. -/
  pending : List OpenRepeat := []
  /-- The bodies measured: where each repeat starts, and the length of one pass. -/
  bodies : List (Nat × Nat) := []

namespace Tally

/-- Counts primitives where they stand: in the innermost open repeat, or outside all of them. -/
def add (n : Nat) (t : Tally) : Tally :=
  match t.pending with
  | [] => { t with total := capped (t.total + n) }
  | inner :: outer => { t with pending := { inner with body := capped (inner.body + n) } :: outer }

/-- Ends the innermost open repeat, if there is one, and counts it where it stands. -/
def close (t : Tally) : Tally :=
  match t.pending with
  | [] => t
  | inner :: outer =>
    add (capped (inner.times * inner.body))
      { t with pending := outer, bodies := (inner.start, inner.body) :: t.bodies }

/-- Takes in the block at a position. -/
def take (t : Tally) (b : Block) (i : Nat) : Tally :=
  match b.kind with
  | .repeatStart => { t with pending := ⟨i, b.iterations, 0⟩ :: t.pending }
  | .repeatEnd => t.close
  | _ => t.add 1

/-- Ends the given number of open repeats. -/
def closeMany : Nat → Tally → Tally
  | 0, t => t
  | n + 1, t => closeMany n t.close

/-- Ends every open repeat. -/
def closeAll (t : Tally) : Tally := closeMany t.pending.length t

end Tally

/-- The measured program. -/
def tally (p : Program) : Tally :=
  (p.blocks.zipIdx.foldl (fun t (b, i) => Tally.take t b i) {}).closeAll

/-- The number of primitives that a whole run executes, up to the limit. -/
def unrolledLength (p : Program) : Nat := p.tally.total

/-- For each block the number of primitives in one pass over its body, up to the limit; `0` for
blocks that start no repeat. -/
def bodyLengths (p : Program) : List Nat :=
  let bodies := p.tally.bodies
  (List.range p.length).map fun i => (bodies.lookup i).getD 0

theorem capped_le (n : Nat) : capped n ≤ countLimit := Nat.min_le_right ..

@[simp] theorem length_bodyLengths (p : Program) : p.bodyLengths.length = p.length := by
  simp [bodyLengths]

end Labyrinth.Program
