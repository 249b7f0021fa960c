import Labyrinth.Wall.Name
import Labyrinth.Proofs.Text

/-!
# A wall is read back from its name

**Theorem (`Wall.ofName?_name`).** The name of a wall with coordinates that are not negative names
that wall. The dashes of such a name are those between its parts, so that it is cut where it was put
together (`cutAtDash_append`).
-/

namespace Labyrinth.Wall

open Text

variable {cs rest : List Char}

theorem cutAtDash_append (plain : '-' ∉ cs) (rest : List Char) :
    cutAtDash (cs ++ '-' :: rest) = (cs, some rest) := by
  induction cs with
  | nil => rfl
  | cons c cs ih =>
    rw [List.mem_cons, not_or] at plain
    rw [List.cons_append, cutAtDash, if_neg (Ne.symm plain.1), ih plain.2]
    rfl

theorem dash_notMem_toDigits (n : Nat) : '-' ∉ Nat.toDigits 10 n := fun mem => by
  cases isDigit_of_mem_toDigits mem

/-- A coordinate is read back from its digits. -/
theorem coordinate?_toDigits {n : Nat} (small : n ≤ maxCoordinate) :
    coordinate? (Nat.toDigits 10 n) = some (n : Int) := by
  unfold coordinate?
  split
  · next rest signed =>
    have first : '+' ∈ Nat.toDigits 10 n := by
      rw [signed]
      exact List.mem_cons_self
    cases isDigit_of_mem_toDigits first
  · simp only [natural?_toDigits, Option.bind_some, if_pos small]

theorem toList_name (o : Orientation) (x y : Nat) :
    (name ⟨o, x, y⟩).toList =
      'w' :: 'a' :: 'l' :: 'l' :: '-' ::
        ([o.letter] ++ '-' :: (Nat.toDigits 10 x ++ '-' :: Nat.toDigits 10 y)) := by
  have written : name ⟨o, x, y⟩ =
      "wall-" ++ o.letter.toString ++ "-" ++ x.repr ++ "-" ++ y.repr := rfl
  have letter : o.letter.toString.toList = [o.letter] := by simp
  rw [written]
  simp only [String.toList_append, Nat.toList_repr, letter]
  simp

/-- **A wall is read back from its name.** -/
theorem ofName?_name (o : Orientation) {x y : Nat} (column : x ≤ maxCoordinate)
    (row : y ≤ maxCoordinate) : ofName? (name ⟨o, x, y⟩) = some ⟨o, x, y⟩ := by
  have letter : '-' ∉ [o.letter] := by cases o <;> decide
  have named : orientation? [o.letter] = some o := by cases o <;> rfl
  rw [ofName?, toList_name]
  simp only [ofParts?, cutAtDash_append letter, named, cutAtDash_append (dash_notMem_toDigits x),
    Option.bind_eq_bind, Option.bind_some, coordinate?_toDigits column, coordinate?_toDigits row]
  rfl

end Labyrinth.Wall
