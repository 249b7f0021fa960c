import Labyrinth.Proofs.Positions
import Labyrinth.Proofs.Program.Brackets
import Labyrinth.Proofs.Program.Mending

/-!
# Counting the brackets without a partner

The two counts that are made before a program is run are the numbers of positions at which a repeat
starts that nothing closes, and at which a closing bracket stands that closes nothing
(`unclosedCount_eq_ncard`, `strayCount_eq_ncard`). What closes what is told by the depth here
(`ClosedAt`), not by the table of partners that the counts are read off.

The closed repeats start at as many positions as they end at (`ncard_closed`). So both counts differ
from the numbers of opening and of closing brackets by the same (`unclosedCount_sub_strayCount`),
and both are zero exactly for programs that are balanced (`balanced_iff_counts`).
-/

namespace Labyrinth.Program

variable {p : Program} {bs : List Block} {depth i j : Nat}

/-- A closing bracket stands at the position. -/
def Ends (p : Program) (j : Nat) : Prop := ∃ b ∈ p.blocks[j]?, b.kind = .repeatEnd

/-- The repeat that starts at the first position ends at the second one, where the depth behind it
first comes to zero. -/
def ClosedAt (p : Program) (i j : Nat) : Prop :=
  p.Opens i ∧ IsLeast {k | i < k ∧ k < p.length ∧ p.depth i k = 0} j

/-! ## The brackets of a closed repeat -/

theorem closedAt_iff : p.ClosedAt i j ↔ p.Partners i j := partners_iff.symm

theorem Partners.ends (h : p.Partners i j) : p.Ends j := by
  have falls : p.height (j + 1) < p.height j := h.height_eq ▸ h.height_lt h.lt (Nat.le_refl j)
  obtain ⟨b, found⟩ : ∃ b, p.blocks[j]? = some b :=
    ⟨_, List.getElem?_eq_getElem h.isLeast.1.2.1⟩
  refine ⟨b, found, ?_⟩
  rw [height_succ found] at falls
  cases kind : b.kind with
  | repeatEnd => rfl
  | _ =>
    simp only [kind, BlockKind.rise] at falls
    omega

theorem mem_matchingEnds_iff : some j ∈ p.matchingEnds ↔ ∃ i, p.Partners i j :=
  List.mem_iff_getElem?

theorem stray_iff : p.Stray j ↔ p.Ends j ∧ ∀ i, ¬ p.Partners i j := by
  rw [Stray, mem_matchingEnds_iff, not_exists, Ends]

theorem unclosed_iff : p.Unclosed i ↔ p.Opens i ∧ ∀ j, ¬ p.Partners i j := by
  refine and_congr_right fun opens => ?_
  rw [getElem?_matchingEnds, if_pos opens.lt_length, Option.some_inj]
  simp only [partners_iff_matchingEnd?, Option.eq_none_iff_forall_ne_some, ne_eq]

/-! ## The counts -/

theorem finite_opens (p : Program) : {i | p.Opens i}.Finite :=
  (Set.finite_lt_nat p.length).subset fun _ opens => opens.lt_length

theorem finite_ends (p : Program) : {j | p.Ends j}.Finite :=
  (Set.finite_lt_nat p.length).subset fun _ ⟨_, found, _⟩ => lt_length_of_getElem? found

theorem countP_repeatStart (p : Program) :
    p.blocks.countP (·.kind = .repeatStart) = {i | p.Opens i}.ncard := by
  rw [countP_eq_ncard]
  simp [positions, Opens]

theorem countP_repeatEnd (p : Program) :
    p.blocks.countP (·.kind = .repeatEnd) = {j | p.Ends j}.ncard := by
  rw [countP_eq_ncard]
  simp [positions, Ends]

/-- Closed repeats start at as many positions as they end at. -/
theorem ncard_closed (p : Program) :
    {i | ∃ j, p.Partners i j}.ncard = {j | ∃ i, p.Partners i j}.ncard := by
  have closing {i j : Nat} (h : p.Partners i j) : (p.matchingEnd? i).getD 0 = j := by
    rw [partners_iff_matchingEnd?.1 h, Option.getD_some]
  refine Set.BijOn.ncard_eq (f := fun i => (p.matchingEnd? i).getD 0) ⟨?_, ?_, ?_⟩
  · rintro i ⟨j, h⟩
    refine ⟨i, ?_⟩
    change p.Partners i ((p.matchingEnd? i).getD 0)
    rwa [closing h]
  · rintro i ⟨j, h⟩ i' ⟨j', h'⟩ same
    obtain rfl : j = j' := (closing h).symm.trans (same.trans (closing h'))
    exact h.unique h'
  · rintro j ⟨i, h⟩
    exact ⟨i, ⟨j, h⟩, closing h⟩

theorem countP_closed (p : Program) :
    p.matchingEnds.countP Option.isSome = {j | ∃ i, p.Partners i j}.ncard := by
  rw [countP_eq_ncard, ← ncard_closed]
  congr 1
  ext i
  simp [positions, Partners, Option.isSome_iff_exists]

theorem closed_subset_ends (p : Program) : {j | ∃ i, p.Partners i j} ⊆ {j | p.Ends j} :=
  fun _ ⟨_, closed⟩ => closed.ends

theorem countP_closed_le (p : Program) :
    p.matchingEnds.countP Option.isSome ≤ p.blocks.countP (·.kind = .repeatEnd) := by
  rw [countP_closed, countP_repeatEnd]
  exact Set.ncard_le_ncard p.closed_subset_ends p.finite_ends

theorem strayCount_eq_ncard (p : Program) : p.strayCount = {j | p.Stray j}.ncard := by
  have rest : {j | p.Stray j} = {j | p.Ends j} \ {j | ∃ i, p.Partners i j} := by
    ext j
    simp [stray_iff]
  rw [strayCount, countP_repeatEnd, countP_closed, rest,
    Set.ncard_sdiff' p.closed_subset_ends p.finite_ends]

theorem unclosedCount_eq_ncard (p : Program) : p.unclosedCount = {i | p.Unclosed i}.ncard := by
  rw [unclosedCount, countP_eq_ncard]
  congr 1
  ext i
  simp only [positions, Unclosed, Opens, Option.mem_def, List.getElem?_zip_eq_some]
  constructor
  · rintro ⟨⟨b, closing⟩, ⟨found, entry⟩, kind⟩
    simp only [Bool.and_eq_true, decide_eq_true_eq, Option.isNone_iff_eq_none] at kind
    exact ⟨⟨b, found, kind.1⟩, kind.2 ▸ entry⟩
  · rintro ⟨⟨b, found, kind⟩, entry⟩
    exact ⟨(b, none), ⟨found, entry⟩, by simp [kind]⟩

/-- Each repeat is unclosed or closed. -/
theorem ncard_opens (p : Program) :
    {i | p.Opens i}.ncard = p.unclosedCount + {i | ∃ j, p.Partners i j}.ncard := by
  have within : {i | ∃ j, p.Partners i j} ⊆ {i | p.Opens i} := fun _ ⟨_, closed⟩ => closed.opens
  have rest : {i | p.Unclosed i} = {i | p.Opens i} \ {i | ∃ j, p.Partners i j} := by
    ext i
    simp [unclosed_iff]
  rw [unclosedCount_eq_ncard, rest, Set.ncard_sdiff_add_ncard_of_subset within p.finite_opens]

/-- Taking the repeats that are closed away from the brackets of both kinds leaves those without a
partner. -/
theorem unclosedCount_sub_strayCount (p : Program) :
    (p.unclosedCount : Int) - p.strayCount =
      p.blocks.countP (·.kind = .repeatStart) - p.blocks.countP (·.kind = .repeatEnd) := by
  have starts : p.blocks.countP (·.kind = .repeatStart) =
      p.unclosedCount + p.matchingEnds.countP Option.isSome := by
    rw [countP_repeatStart, ncard_opens, ncard_closed, countP_closed]
  have closed := p.countP_closed_le
  rw [starts, strayCount]
  omega

/-! ## Balanced programs -/

theorem keepClosers_sublist (depth : Nat) (bs : List Block) :
    (keepClosers depth bs).Sublist bs := by
  fun_induction keepClosers depth bs with
  | case1 => exact .slnil
  | case3 b rest _ ih => exact .cons b ih
  | _ => exact .cons_cons _ (by assumption)

/-- The blocks close what they open if nothing is left open and nothing is taken out. -/
theorem closes_iff : closes depth bs = true ↔
    openAfter depth bs = 0 ∧ (keepClosers depth bs).length = bs.length := by
  induction bs generalizing depth with
  | nil => simp [closes, openAfter, keepClosers]
  | cons b rest ih =>
    cases kind : b.kind with
    | repeatEnd =>
      cases depth with
      | zero =>
        have kept := (keepClosers_sublist 0 rest).length_le
        simp only [closes, openAfter, keepClosers, kind, List.length_cons, Bool.false_eq_true,
          false_iff]
        omega
      | succ depth => simp [closes, openAfter, keepClosers, kind, ih]
    | _ => simp [closes, openAfter, keepClosers, kind, ih]

theorem length_withoutStray_eq_iff :
    p.withoutStray.length = p.blocks.length ↔ p.strayCount = 0 := by
  have finite : {j | p.Stray j}.Finite := p.finite_ends.subset fun _ stray => stray.1
  rw [strayCount_eq_ncard, Set.ncard_eq_zero finite, Set.eq_empty_iff_forall_notMem, withoutStray,
    List.length_map]
  have whole : p.blocks.length = p.blocks.zipIdx.length := List.length_zipIdx.symm
  rw [whole, List.length_filter_eq_length_iff]
  constructor
  · rintro none j ⟨⟨b, found, ends⟩, unmatched⟩
    have kept := none (b, j) (List.mk_mem_zipIdx_iff_getElem?.2 found)
    exact of_decide_eq_true kept ⟨⟨b, found, ends⟩, unmatched⟩
  · exact fun none x _ => decide_eq_true (none x.2)

/-- **A program is balanced** if no bracket of either kind lacks a partner. -/
theorem balanced_iff_counts :
    Balanced p.blocks ↔ p.unclosedCount = 0 ∧ p.strayCount = 0 := by
  rw [Balanced, closes_iff, unclosedCount_eq, ← withoutStray_eq, length_withoutStray_eq_iff]

end Labyrinth.Program
