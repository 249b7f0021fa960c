import Labyrinth.Maze.Basic

/-!
# Walks

A walk is a list of cells in which each step leads through a passage of the maze.
-/

namespace Labyrinth.Maze

/-- Each cell of the list leads to the next through a passage. -/
def IsWalk (m : Maze) : List Cell → Prop
  | a :: b :: rest => m.Open a b ∧ m.IsWalk (b :: rest)
  | _ => True

instance decidableIsWalk (m : Maze) : (l : List Cell) → Decidable (m.IsWalk l)
  | [] => .isTrue trivial
  | [_] => .isTrue trivial
  | a :: b :: rest =>
    have := decidableIsWalk m (b :: rest)
    inferInstanceAs (Decidable (m.Open a b ∧ m.IsWalk (b :: rest)))

/-- The list is a walk from one cell to another. -/
def WalksFrom (m : Maze) (a b : Cell) (walk : List Cell) : Prop :=
  walk.head? = some a ∧ walk.getLast? = some b ∧ m.IsWalk walk

instance (m : Maze) (a b : Cell) (walk : List Cell) : Decidable (m.WalksFrom a b walk) :=
  inferInstanceAs (Decidable (_ ∧ _ ∧ _))

/-- The walk leads from start to goal, and no other that does has fewer cells. -/
def IsShortest (m : Maze) (walk : List Cell) : Prop :=
  m.WalksFrom m.start m.goal walk ∧
    ∀ other, m.WalksFrom m.start m.goal other → walk.length ≤ other.length

/-- Some walk leads from one cell to another. -/
def Reaches (m : Maze) (a b : Cell) : Prop := ∃ walk, m.WalksFrom a b walk

theorem WalksFrom.cons {m : Maze} {a b c : Cell} {walk : List Cell} (passage : m.Open a b)
    (h : m.WalksFrom b c walk) : m.WalksFrom a c (a :: walk) := by
  obtain ⟨first, last, isWalk⟩ := h
  cases walk with
  | nil => cases first
  | cons b' rest =>
    cases first
    exact ⟨rfl, by simpa using last, passage, isWalk⟩

theorem Reaches.refl (m : Maze) (a : Cell) : m.Reaches a a := ⟨[a], rfl, rfl, trivial⟩

theorem Reaches.cons {m : Maze} {a b c : Cell} (passage : m.Open a b) (h : m.Reaches b c) :
    m.Reaches a c := by
  obtain ⟨walk, walks⟩ := h
  exact ⟨a :: walk, walks.cons passage⟩

end Labyrinth.Maze
