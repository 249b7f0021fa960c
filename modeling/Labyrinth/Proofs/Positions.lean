import Mathlib.Data.Set.Card

/-!
# Counting positions

How many entries of a list have a property is how many positions hold such an entry. Counts that a
scan makes are compared in this form, as sets of positions that can be split and mapped onto each
other.
-/

namespace Labyrinth

variable {α : Type}

/-- The positions of a list that hold an entry with some property. -/
def positions (P : α → Bool) (l : List α) : Set Nat := {i | ∃ a ∈ l[i]?, P a = true}

theorem positions_cons (P : α → Bool) (a : α) (l : List α) :
    positions P (a :: l) = {i | i = 0 ∧ P a = true} ∪ Nat.succ '' positions P l := by
  ext i
  cases i <;> simp [positions]

theorem finite_positions (P : α → Bool) (l : List α) : (positions P l).Finite := by
  refine (Set.finite_lt_nat l.length).subset ?_
  rintro i ⟨a, found, -⟩
  exact (List.getElem?_eq_some_iff.1 found).1

/-- The entries counted are as many as their positions. -/
theorem countP_eq_ncard (P : α → Bool) (l : List α) : l.countP P = (positions P l).ncard := by
  induction l with
  | nil => simp [positions]
  | cons a l ih =>
    have first : {i | i = 0 ∧ P a = true}.ncard = if P a then 1 else 0 := by
      by_cases h : P a = true <;> simp [h]
    have apart : Disjoint {i | i = 0 ∧ P a = true} (Nat.succ '' positions P l) := by
      rw [Set.disjoint_left]
      rintro i ⟨rfl, -⟩ ⟨j, -, same⟩
      exact Nat.succ_ne_zero j same
    rw [positions_cons, Set.ncard_union_eq apart ((Set.finite_singleton 0).subset fun i h => h.1)
      ((finite_positions P l).image _), Set.ncard_image_of_injective _ Nat.succ_injective, ← ih,
      first, List.countP_cons, Nat.add_comm]

end Labyrinth
