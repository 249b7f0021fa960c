import Labyrinth.Proofs.Program.Brackets
import Labyrinth.Proofs.Program.Measure
import Labyrinth.Proofs.Program.Written

/-!
# The lengths of a program and of its bodies

**Theorem (`lengths_exact`).** The length that is measured in one pass is the number of primitive
blocks of the program written out, or the largest 64-bit number if there are more of them. The same
holds of each repeat and the blocks between its brackets, taken as a program of their own, and all
other blocks have length zero. So a body has length zero exactly if it runs nothing, and a 32-bit
ceiling is reached by the length that is measured exactly if the exact one reaches it.

The measurement is known to agree with the levels of the outline. What is left is that the level
behind an opening bracket is the body as a program of its own (`exactLength_body`): up to its
closing bracket the body is balanced, so it makes one level whatever stands around it; without one
there is only one level left. And that nothing but the start of a repeat is ever recorded
(`Tally.Starts`).
-/

namespace Labyrinth.Program

open Outline

variable {p : Program} {b : Block} {bs : List Block} {d i j s n : Nat}

/-! ## A body as a program of its own -/

/-- Up to the bracket at which the depth comes to zero the blocks close the repeats that are open
before them, but for the last one. -/
theorem exists_closes_of_zeroDepth? (found : zeroDepth? (d + 1) i bs = some j) :
    ∃ front closing behind, bs = front ++ closing :: behind ∧ j = i + front.length ∧
      closing.kind = .repeatEnd ∧ closes d front = true := by
  induction bs generalizing d i with
  | nil => cases found
  | cons b rest ih =>
    -- `b` is not the bracket in question, and goes in front of what was found
    have onward {d' : Nat} (found : zeroDepth? (d' + 1) (i + 1) rest = some j)
        (same : ∀ front, closes d (b :: front) = closes d' front) :
        ∃ front closing behind, b :: rest = front ++ closing :: behind ∧ j = i + front.length ∧
          closing.kind = .repeatEnd ∧ closes d front = true := by
      obtain ⟨front, closing, behind, rfl, rfl, ends, closed⟩ := ih found
      refine ⟨b :: front, closing, behind, rfl, ?_, ends, (same front).trans closed⟩
      rw [List.length_cons]
      omega
    cases kind : b.kind with
    | repeatStart =>
      simp only [zeroDepth?, kind] at found
      exact onward found fun front => by simp only [closes, kind]
    | repeatEnd =>
      simp only [zeroDepth?, kind] at found
      cases d with
      | zero => exact ⟨[], b, rest, rfl, (Option.some.inj found).symm, kind, rfl⟩
      | succ d =>
        rw [if_neg (by omega), Nat.add_sub_cancel] at found
        exact onward found fun front => by simp only [closes, kind]
    | _ =>
      simp only [zeroDepth?, kind] at found
      exact onward found fun front => by simp only [closes, kind]

/-- Balanced blocks in front of a closing bracket are the innermost level, and make the whole of a
program of their own. -/
theorem Balanced.written_eq (balanced : Balanced bs) {closing : Block}
    (ends : closing.kind = .repeatEnd) (behind : List Block) :
    written ⟨bs⟩ = (writtenLevels (bs ++ closing :: behind)).headD [] := by
  obtain ⟨blocks, once⟩ := balanced.foldr_onto
  rw [writtenLevels_append, writtenLevels_cons, Block.onto_repeatEnd ends, once, written,
    writtenLevels, once, List.flatten_singleton]
  rfl

theorem countAll_levelAt (p : Program) (i : Nat) :
    countAll (p.levelAt i) = ((writtenLevels (p.blocks.drop i)).headD []).length := by
  have same := congrArg List.length (standing_headD (map_standing_levels (p := p) (i := i) rfl)).1
  rwa [standing, List.length_map, List.length_map, length_expandAll] at same

/-- **One pass over a body** is the level behind its opening bracket. -/
theorem exactLength_body (h : p.blocks[i]? = some b) (kind : b.kind = .repeatStart) :
    (p.body i).exactLength = countAll (p.levelAt (i + 1)) := by
  have partner : p.matchingEnd? i = zeroDepth? 1 (i + 1) (p.blocks.drop (i + 1)) := by
    rw [matchingEnd?_eq_closingByDepth?, closingByDepth?, drop_eq_cons h]
    obtain ⟨id, kind', count⟩ := b
    cases kind
    rfl
  rw [exactLength_eq, countAll_levelAt, body, partner]
  cases closed : zeroDepth? 1 (i + 1) (p.blocks.drop (i + 1)) with
  | none =>
    have single : (writtenLevels (p.blocks.drop (i + 1))).tail = [] := by
      have behind : (p.levelsFrom (i + 1)).tail = [] := by rw [levelsFrom_tail, closed]
      have stands := (standing_headD (map_standing_levels (p := p) (i := i + 1) rfl)).2
      rw [show (levels (i + 1) (p.blocks.drop (i + 1))).tail = [] from behind] at stands
      exact List.map_eq_nil_iff.1 stands.symm
    obtain ⟨level, outer, split⟩ := exists_writtenLevels_eq_cons (p.blocks.drop (i + 1))
    rw [split] at single
    obtain rfl : outer = [] := single
    rw [Option.getD_none, length, List.take_length, written, split, List.flatten_singleton]
    rfl
  | some j =>
    obtain ⟨front, closing, behind, split, place, ends, balanced⟩ :=
      exists_closes_of_zeroDepth? closed
    have inside : (p.blocks.take j).drop (i + 1) = front := by
      rw [List.drop_take, split, place, Nat.add_sub_cancel_left, List.take_left]
    rw [Option.getD_some, inside, split, Balanced.written_eq balanced ends behind]

/-! ## What is recorded -/

/-- Repeats that are open or have been measured start where the program has an opening bracket. -/
def Tally.Starts (p : Program) (t : Tally) : Prop :=
  (∀ s ∈ t.starts, p.Opens s) ∧ ∀ s ∈ t.bodies.map Prod.fst, p.Opens s

namespace Tally

variable {t : Tally}

theorem Starts.add (h : t.Starts p) (n : Nat) : (t.add n).Starts p := by
  rwa [Starts, starts_add, bodies_add]

theorem Starts.close (h : t.Starts p) : t.close.Starts p := by
  refine ⟨fun s mem => h.1 s (List.mem_of_mem_tail (starts_close t ▸ mem)), ?_⟩
  rw [Tally.close]
  split
  · exact h.2
  · next inner outer found =>
    have opens : p.Opens inner.start :=
      h.1 _ (List.mem_map_of_mem (found ▸ List.mem_cons_self))
    rw [bodies_add, List.map_cons, List.forall_mem_cons]
    exact ⟨opens, h.2⟩

theorem Starts.take (h : t.Starts p) (found : p.blocks[i]? = some b) :
    (t.take b i).Starts p := by
  rw [Tally.take]
  split
  · next kind =>
    refine ⟨?_, h.2⟩
    rw [starts, List.map_cons, List.forall_mem_cons]
    exact ⟨⟨b, found, kind⟩, h.1⟩
  · exact h.close
  · exact h.add 1

theorem Starts.run (h : t.Starts p) (stands : p.blocks.drop i = bs) : (t.run i bs).Starts p := by
  induction bs generalizing t i with
  | nil => exact h
  | cons b bs ih =>
    have found : p.blocks[i]? = some b := by rw [← List.head?_drop, stands, List.head?_cons]
    exact ih (h.take found) (by rw [← List.tail_drop, stands, List.tail_cons])

theorem Starts.closeMany (h : t.Starts p) (n : Nat) : (Tally.closeMany n t).Starts p := by
  induction n generalizing t with
  | zero => exact h
  | succ n ih => exact ih h.close

end Tally

theorem bodyLengths_of_not_opens (inside : i < p.length) (other : ¬ p.Opens i) :
    p.bodyLengths[i]? = some 0 := by
  have first : ({} : Tally).Starts p := ⟨by simp [Tally.starts], by simp⟩
  have scanned : (Tally.run {} 0 p.blocks).Starts p := first.run rfl
  have starts : p.tally.Starts p := scanned.closeMany _
  have missing : p.tally.bodies.lookup i = none := by
    rw [List.lookup_eq_none_iff]
    rintro ⟨s, n⟩ mem
    rw [bne_iff_ne]
    rintro rfl
    exact other (starts.2 _ (List.mem_map_of_mem mem))
  simp only [bodyLengths, List.getElem?_map, List.getElem?_range inside, Option.map_some, missing,
    Option.getD_none]

/-- **The lengths of a program and of its bodies are exact**, up to the largest 64-bit number. -/
theorem lengths_exact (p : Program) :
    p.unrolledLength = min p.expansion.length (UInt64.size - 1) ∧
      p.bodyLengths.length = p.length ∧
      (∀ i, p.Opens i →
        p.bodyLengths[i]? = some (min (p.body i).expansion.length (UInt64.size - 1)) ∧
          (p.bodyLengths[i]? = some 0 ↔ (p.body i).expansion = [])) ∧
      (∀ i, i < p.length → ¬ p.Opens i → p.bodyLengths[i]? = some 0) ∧
      ∀ ceiling : UInt32,
        ceiling.toNat ≤ p.unrolledLength ↔ ceiling.toNat ≤ p.expansion.length := by
  have written (q : Program) : q.expansion.length = q.exactLength := length_expandAll _
  have measured : p.unrolledLength = min p.expansion.length (UInt64.size - 1) := by
    rw [unrolledLength_eq, written]
    rfl
  refine ⟨measured, length_bodyLengths p, fun i opens => ?_, fun i => bodyLengths_of_not_opens,
    fun ceiling => ?_⟩
  · obtain ⟨b, found, kind⟩ := opens
    have body : p.bodyLengths[i]? = some (capped (p.body i).expansion.length) := by
      rw [bodyLengths_repeatStart found kind, written, exactLength_body found kind]
    refine ⟨body, ?_⟩
    rw [body, Option.some_inj, capped_eq_zero, List.length_eq_zero_iff]
  · have small : ceiling.toNat < UInt64.size := Nat.lt_trans ceiling.toNat_lt (by decide)
    rw [measured]
    omega

/-- Three repeats in one another reach the largest number, and a repeat of zero times around them
brings the total back to what stands behind it. -/
example :
    let p : Program := ⟨[⟨"a", .repeatStart, some 0⟩, ⟨"b", .repeatStart, some 4294967295⟩,
      ⟨"c", .repeatStart, some 4294967295⟩, ⟨"d", .repeatStart, some 4294967295⟩,
      ⟨"e", .forward, none⟩, ⟨"f", .repeatEnd, none⟩, ⟨"g", .repeatEnd, none⟩,
      ⟨"h", .repeatEnd, none⟩, ⟨"i", .repeatEnd, none⟩, ⟨"j", .wait, none⟩]⟩
    p.unrolledLength = 1 ∧
      p.bodyLengths =
        [UInt64.size - 1, 18446744065119617025, 4294967295, 1, 0, 0, 0, 0, 0, 0] := by
  decide

end Labyrinth.Program
