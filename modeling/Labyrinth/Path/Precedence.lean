import Labyrinth.Cell

/-!
# Which of two paths comes first

Two paths from a cell are compared where they part. The one that goes on to the right comes first,
then the one to the left, then down, then up; what follows does not matter.

Main statements: `Precedes.irrefl` and `Precedes.trans`, this is a strict order.
`Precedes.append` and `precedes_concat_step` say how it looks upon paths that grow at their ends.
-/

namespace Labyrinth

/-- The place of a heading in the order right, left, down, up. -/
def Heading.rank : Heading → Nat
  | right => 0
  | left => 1
  | down => 2
  | up => 3

namespace Path

/-- The first path comes before the second one. -/
inductive Precedes : List Cell → List Cell → Prop
  /-- The paths part at a cell, and the first goes on by the heading of lower rank. -/
  | part {c a b : Cell} {h h' : Heading} {l l' : List Cell} :
      a = c + h.step → b = c + h'.step → h.rank < h'.rank → Precedes (c :: a :: l) (c :: b :: l')
  | cons (c : Cell) {l l' : List Cell} : Precedes l l' → Precedes (c :: l) (c :: l')

namespace Precedes

variable {l l' l'' : List Cell}

theorem irrefl (l : List Cell) : ¬ Precedes l l := by
  intro h
  induction l with
  | nil => cases h
  | cons c l ih =>
    cases h with
    | part first second lower =>
      have same := Heading.eq_of_add_step_eq (first.symm.trans second)
      exact absurd lower (same ▸ Nat.lt_irrefl _)
    | cons _ h => exact ih h

theorem trans (h : Precedes l l') (h' : Precedes l' l'') : Precedes l l'' := by
  induction h generalizing l'' with
  | part first second lower =>
    cases h' with
    | part second' third lower' =>
      have same := Heading.eq_of_add_step_eq (second.symm.trans second')
      exact .part first third (Nat.lt_trans lower (same ▸ lower'))
    | cons _ h' =>
      cases h' with
      | part => exact .part first second lower
      | cons => exact .part first second lower
  | cons c h ih =>
    cases h' with
    | part second third lower =>
      cases h with
      | part => exact .part second third lower
      | cons => exact .part second third lower
    | cons _ h' => exact .cons c (ih h')

/-- What comes after two paths have parted does not matter. -/
theorem append (h : Precedes l l') (k k' : List Cell) : Precedes (l ++ k) (l' ++ k') := by
  induction h with
  | part first second lower => exact .part first second lower
  | cons c _ ih => exact .cons c ih

end Precedes

theorem precedes_concat_step (l : List Cell) (c : Cell) {h h' : Heading}
    (lower : h.rank < h'.rank) :
    Precedes (l ++ [c] ++ [c + h.step]) (l ++ [c] ++ [c + h'.step]) := by
  induction l with
  | nil => exact .part rfl rfl lower
  | cons a l ih => exact .cons a ih

end Path

end Labyrinth
