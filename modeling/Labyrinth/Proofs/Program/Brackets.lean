import Labyrinth.Program.Nesting
import Labyrinth.Proofs.Program.Levels
import Mathlib.Data.Nat.Find
import Mathlib.Order.Bounds.Basic
import Mathlib.Order.Nat

/-!
# Brackets by their depth

**Theorem (`partners_by_depth`).** The bracket that closes a repeat is the first one behind it at
which the depth, one behind the opening bracket, comes to zero. So two closed repeats stand one
after the other or one within the other, a closing bracket has one partner at most, a stray one
stands inside no repeat, and an unclosed repeat starts inside no closed one.

**The height** (`height`). How deep the nesting is before a position, counted from the beginning of
the program and not stopped at zero. It changes by one at most from each position to the next. The
depth compares two heights, and each kind of bracket is told by how the heights behind it compare
with its own: behind a closed repeat the height is what it was before the repeat, and above that
everywhere in between (`Partners.height_eq`, `Partners.height_lt`); behind the start of an unclosed
repeat it stays above (`Unclosed.height_lt`); behind a stray bracket it is lower than ever before
(`Stray.height_lt`).
-/

namespace Labyrinth.Program

variable {p : Program} {b : Block} {i j k n d i' j' : Nat} {c : Int}

/-! ## The height -/

/-- How deep the nesting is before a position, counted from the beginning of the program. -/
def height (p : Program) (n : Nat) : Int := Block.riseAll (p.blocks.take n)

theorem riseAll_append (bs rest : List Block) :
    Block.riseAll (bs ++ rest) = Block.riseAll bs + Block.riseAll rest := by
  induction bs with
  | nil => exact (Int.zero_add _).symm
  | cons b bs ih => rw [List.cons_append, Block.riseAll, Block.riseAll, ih, Int.add_assoc]

theorem height_succ (h : p.blocks[n]? = some b) : p.height (n + 1) = p.height n + b.kind.rise := by
  rw [height, List.take_add_one, h, riseAll_append, Option.toList_some, Block.riseAll,
    Block.riseAll, Int.add_zero, height]

theorem height_of_length_le (h : p.length ≤ n) : p.height n = p.height p.length := by
  rw [height, height, List.take_of_length_le h, length, List.take_length]

theorem height_le_succ (p : Program) (n : Nat) : p.height n ≤ p.height (n + 1) + 1 := by
  cases found : p.blocks[n]? with
  | none =>
    have beyond : p.length ≤ n := List.getElem?_eq_none_iff.1 found
    rw [height_of_length_le beyond, height_of_length_le (Nat.le_succ_of_le beyond)]
    omega
  | some b =>
    rw [height_succ found]
    cases b.kind <;> simp only [BlockKind.rise] <;> omega

/-- Where the height goes up a repeat starts, and it goes up by one. -/
theorem opens_of_lt_height (h : p.height n < p.height (n + 1)) :
    p.Opens n ∧ p.height (n + 1) = p.height n + 1 := by
  cases found : p.blocks[n]? with
  | none =>
    have beyond : p.length ≤ n := List.getElem?_eq_none_iff.1 found
    rw [height_of_length_le beyond, height_of_length_le (Nat.le_succ_of_le beyond)] at h
    exact absurd h (Int.lt_irrefl _)
  | some b =>
    rw [height_succ found] at h ⊢
    cases kind : b.kind with
    | repeatStart => exact ⟨⟨b, found, kind⟩, rfl⟩
    | _ =>
      simp only [kind, BlockKind.rise] at h
      omega

theorem Opens.height (h : p.Opens i) : p.height (i + 1) = p.height i + 1 := by
  obtain ⟨b, found, kind⟩ := h
  rw [height_succ found, kind]
  rfl

theorem Opens.lt_length (h : p.Opens i) : i < p.length := by
  obtain ⟨b, found, -⟩ := h
  exact lt_length_of_getElem? found

theorem depth_eq (h : i ≤ j) : p.depth i j = 1 + (p.height (j + 1) - p.height (i + 1)) := by
  have split : (p.blocks.take (j + 1)).take (i + 1) = p.blocks.take (i + 1) := by
    rw [List.take_take, Nat.min_eq_left (Nat.succ_le_succ h)]
  have parts := riseAll_append ((p.blocks.take (j + 1)).take (i + 1))
    ((p.blocks.take (j + 1)).drop (i + 1))
  rw [List.take_append_drop, split] at parts
  rw [depth, Program.height, Program.height, parts]
  omega

/-- A height that does not come down to a bound from one position to the next stays above it. -/
theorem lt_height_of_ne (above : c < p.height i) (ne : ∀ k, i ≤ k → k < n → p.height (k + 1) ≠ c)
    (h : i ≤ n) : c < p.height n := by
  induction n, h using Nat.le_induction with
  | base => exact above
  | succ n h ih =>
    have before := ih fun k from_i below => ne k from_i (Nat.lt_succ_of_lt below)
    have here := ne n h n.lt_succ_self
    have down := p.height_le_succ n
    omega

/-! ## The first zero -/

/-- The positions from `i` on behind which the height is `d` less than it is before `i`. -/
def fallsBy (p : Program) (d i : Nat) : Set Nat :=
  {k | i ≤ k ∧ k < p.length ∧ p.height (k + 1) + d = p.height i}

theorem fallsBy_eq_succ (d' : Nat) (found : p.blocks[i]? = some b)
    (ne : p.height (i + 1) + d ≠ p.height i) (same : (d' : Int) = d + b.kind.rise) :
    p.fallsBy d i = p.fallsBy d' (i + 1) := by
  have step := height_succ found
  ext k
  simp only [fallsBy, Set.mem_ofPred_eq]
  constructor
  · rintro ⟨from_i, below, falls⟩
    have other : i ≠ k := by rintro rfl; exact ne falls
    exact ⟨by omega, below, by omega⟩
  · rintro ⟨behind, below, falls⟩
    exact ⟨by omega, below, by omega⟩

/-- The counter that starts at `d` comes to zero where the height has first fallen by `d`. -/
theorem zeroDepth?_eq_some (pos : 0 < d) :
    zeroDepth? d i (p.blocks.drop i) = some j ↔ IsLeast (p.fallsBy d i) j := by
  generalize left : p.length - i = m
  induction m generalizing d i with
  | zero =>
    have beyond : p.length ≤ i := Nat.sub_eq_zero_iff_le.1 left
    rw [List.drop_eq_nil_of_le beyond, zeroDepth?]
    refine iff_of_false (Option.some_ne_none j).symm fun h => ?_
    obtain ⟨⟨from_i, inside, -⟩, -⟩ := h
    omega
  | succ m ih =>
    have inside : i < p.length := by omega
    have found : p.blocks[i]? = some p.blocks[i] := List.getElem?_eq_getElem inside
    have step := height_succ found
    have later (d' : Nat) := fallsBy_eq_succ (d := d) d' found
    rw [drop_eq_cons found]
    cases kind : p.blocks[i].kind with
    | repeatStart =>
      simp only [kind, BlockKind.rise] at step later
      simp only [zeroDepth?, kind]
      rw [ih (Nat.succ_pos d) (by omega), later (d + 1) (by omega) (by omega)]
    | repeatEnd =>
      simp only [kind, BlockKind.rise] at step later
      simp only [zeroDepth?, kind]
      split
      · next one =>
        subst one
        -- at depth one the height has fallen far enough right here
        have here : IsLeast (p.fallsBy 1 i) i :=
          ⟨⟨Nat.le_refl i, inside, by omega⟩, fun k mem => mem.1⟩
        exact ⟨fun same => Option.some.inj same ▸ here, fun h => congrArg some (here.unique h)⟩
      · next more =>
        rw [ih (by omega) (by omega), later (d - 1) (by omega) (by omega)]
    | _ =>
      simp only [kind, BlockKind.rise] at step later
      simp only [zeroDepth?, kind]
      rw [ih pos (by omega), later d (by omega) (by omega)]

theorem matchingEnd?_eq_some :
    p.matchingEnd? i = some j ↔ p.Opens i ∧ IsLeast (p.fallsBy 1 (i + 1)) j := by
  rw [matchingEnd?_eq_closingByDepth?, closingByDepth?]
  cases found : p.blocks[i]? with
  | none =>
    rw [List.drop_eq_nil_of_le (List.getElem?_eq_none_iff.1 found)]
    have opens : ¬ p.Opens i := by simp [Opens, found]
    exact iff_of_false (Option.some_ne_none j).symm fun h => opens h.1
  | some b =>
    rw [drop_eq_cons found]
    obtain ⟨id, kind, count⟩ := b
    have opens : p.Opens i ↔ kind = .repeatStart := by simp [Opens, found]
    rw [opens]
    cases kind with
    | repeatStart => simpa using zeroDepth?_eq_some Nat.one_pos
    | _ => simp

theorem partners_iff_matchingEnd? : p.Partners i j ↔ p.matchingEnd? i = some j := by
  rw [Partners, getElem?_matchingEnds]
  split
  · rw [Option.some_inj]
  · next beyond =>
    exact iff_of_false (Option.some_ne_none _).symm fun found =>
      beyond (matchingEnd?_eq_some.1 found).1.lt_length

/-! ## Each kind of bracket by its height -/

theorem Partners.isLeast (h : p.Partners i j) : IsLeast (p.fallsBy 1 (i + 1)) j :=
  (matchingEnd?_eq_some.1 (partners_iff_matchingEnd?.1 h)).2

theorem Partners.opens (h : p.Partners i j) : p.Opens i :=
  (matchingEnd?_eq_some.1 (partners_iff_matchingEnd?.1 h)).1

theorem Partners.lt (h : p.Partners i j) : i < j := h.isLeast.1.1

theorem Partners.height_eq (h : p.Partners i j) : p.height (j + 1) = p.height i := by
  have falls := h.isLeast.1.2.2
  have rises := h.opens.height
  omega

theorem Partners.height_lt (h : p.Partners i j) (behind : i < n) (within : n ≤ j) :
    p.height i < p.height n := by
  have rises := h.opens.height
  refine lt_height_of_ne (i := i + 1) (by omega) (fun k from_i below same => ?_) behind
  have inside := h.isLeast.1.2.1
  have earlier : j ≤ k := h.isLeast.2 ⟨from_i, by omega, by omega⟩
  omega

theorem Unclosed.height_lt (h : p.Unclosed i) (behind : i < n) : p.height i < p.height n := by
  obtain ⟨opens, unmatched⟩ := h
  have rises := opens.height
  have inside := opens.lt_length
  have never : ∀ k, k ∉ p.fallsBy 1 (i + 1) := by
    classical
    intro k mem
    have first : IsLeast (p.fallsBy 1 (i + 1)) (Nat.find ⟨k, mem⟩) := Nat.isLeast_find ⟨k, mem⟩
    have closed := partners_iff_matchingEnd?.2 (matchingEnd?_eq_some.2 ⟨opens, first⟩)
    rw [Partners, unmatched] at closed
    cases closed
  have above {m : Nat} (from_i : i + 1 ≤ m) (le : m ≤ p.length) : p.height i < p.height m :=
    lt_height_of_ne (by omega) (fun k later below same => never k ⟨later, by omega, by omega⟩)
      from_i
  rcases Nat.le_total n p.length with le | beyond
  · exact above behind le
  · rw [height_of_length_le beyond]
    exact above inside (Nat.le_refl _)

/-- A closing bracket closes a repeat if the height behind it is no less than at some position
before it. -/
theorem exists_partners (found : p.blocks[k]? = some b) (ends : b.kind = .repeatEnd) (le : i ≤ k)
    (no_less : p.height i ≤ p.height (k + 1)) : ∃ s, p.Partners s k := by
  have falls := height_succ found
  simp only [ends, BlockKind.rise] at falls
  -- The repeat starts at the last position that is no higher than what stands behind the bracket.
  obtain ⟨s, bound, low, high⟩ : ∃ s ≤ k, p.height s ≤ p.height (k + 1) ∧
      ∀ n, s < n → n ≤ k → p.height (k + 1) < p.height n :=
    ⟨Nat.findGreatest (fun s => p.height s ≤ p.height (k + 1)) k, Nat.findGreatest_le k,
      Nat.findGreatest_spec (P := fun s => p.height s ≤ p.height (k + 1)) le no_less,
      fun n later within => Int.not_le.1 (Nat.findGreatest_is_greatest later within)⟩
  have before : s < k := by
    refine Nat.lt_of_le_of_ne bound ?_
    rintro rfl
    omega
  have next := high (s + 1) (Nat.lt_succ_self s) before
  obtain ⟨opens, rises⟩ := opens_of_lt_height (Int.lt_of_le_of_lt low next)
  refine ⟨s, partners_iff_matchingEnd?.2 (matchingEnd?_eq_some.2 ⟨opens, ?_, ?_⟩)⟩
  · exact ⟨before, lt_length_of_getElem? found, by omega⟩
  · rintro j ⟨behind, -, same⟩
    refine Nat.le_of_not_lt fun earlier => ?_
    have := high (j + 1) (by omega) earlier
    omega

/-- Behind a stray closing bracket the height is lower than it ever was before. -/
theorem Stray.height_lt (h : p.Stray k) (le : i ≤ k) : p.height (k + 1) < p.height i := by
  obtain ⟨⟨b, found, ends⟩, unmatched⟩ := h
  refine Int.lt_of_not_ge fun no_less => ?_
  obtain ⟨s, partners⟩ := exists_partners found ends le no_less
  exact unmatched (List.mem_of_getElem? partners)

/-! ## How repeats stand to each other -/

/-- Two closed repeats stand one after the other, or one within the other. -/
theorem Partners.apart_or_within (h : p.Partners i j) (h' : p.Partners i' j') (order : i < i') :
    j < i' ∨ j' < j := by
  by_cases after : j < i'
  · exact .inl after
  · right
    have above := h.height_lt order (by omega)
    have same := h.height_eq
    have same' := h'.height_eq
    refine Nat.lt_of_not_le fun beyond => ?_
    rcases Nat.eq_or_lt_of_le beyond with rfl | later
    · omega
    · have := h'.height_lt (n := j + 1) (by omega) later
      omega

theorem Partners.unique (h : p.Partners i j) (h' : p.Partners i' j) : i = i' := by
  rcases Nat.lt_trichotomy i i' with order | same | order
  · have := h'.lt
    rcases h.apart_or_within h' order with after | within <;> omega
  · exact same
  · have := h.lt
    rcases h'.apart_or_within h order with after | within <;> omega

theorem Partners.not_stray (h : p.Partners i j) (behind : i < k) (before : k < j) :
    ¬ p.Stray k := by
  intro stray
  have lower := stray.height_lt (Nat.le_of_lt behind)
  have higher := h.height_lt (n := k + 1) (Nat.lt_succ_of_lt behind) before
  omega

theorem Unclosed.lt_of_stray (h : p.Unclosed i) (stray : p.Stray k) : k < i := by
  refine Nat.lt_of_not_le fun behind => ?_
  have lower := stray.height_lt behind
  have higher := h.height_lt (n := k + 1) (Nat.lt_succ_of_le behind)
  omega

theorem Partners.not_unclosed (h : p.Partners i j) (behind : i < k) (before : k < j) :
    ¬ p.Unclosed k := by
  intro unclosed
  have inside := h.height_lt behind (Nat.le_of_lt before)
  have higher := unclosed.height_lt (n := j + 1) (Nat.lt_succ_of_lt before)
  have same := h.height_eq
  omega

theorem partners_iff :
    p.Partners i j ↔ p.Opens i ∧ IsLeast {k | i < k ∧ k < p.length ∧ p.depth i k = 0} j := by
  have zeros : {k | i < k ∧ k < p.length ∧ p.depth i k = 0} = p.fallsBy 1 (i + 1) := by
    ext k
    simp only [fallsBy, Set.mem_ofPred_eq, Nat.succ_le_iff]
    refine and_congr_right fun behind => and_congr_right fun _ => ?_
    rw [depth_eq (Nat.le_of_lt behind)]
    omega
  rw [partners_iff_matchingEnd?, matchingEnd?_eq_some, zeros]

/-- **The partners of the brackets are found by depth**, and no two repeats cross. -/
theorem partners_by_depth (p : Program) :
    p.matchingEnds.length = p.length ∧
      (∀ i j, p.matchingEnds[i]? = some (some j) ↔
        p.Opens i ∧ IsLeast {k | i < k ∧ k < p.length ∧ p.depth i k = 0} j) ∧
      (∀ i j i' j', p.Partners i j → p.Partners i' j' → i < i' →
        j < i' ∨ (i' < j' ∧ j' < j)) ∧
      (∀ i i' j, p.Partners i j → p.Partners i' j → i = i') ∧
      (∀ k, p.Stray k →
        (∀ i j, p.Partners i j → ¬ (i < k ∧ k < j)) ∧ ∀ i, p.Unclosed i → k < i) ∧
      (∀ i j k, p.Partners i j → p.Unclosed k → ¬ (i < k ∧ k < j)) := by
  refine ⟨length_matchingEnds p, fun i j => partners_iff, fun i j i' j' h h' order => ?_,
    fun i i' j h h' => h.unique h',
    fun k stray => ⟨fun i j h inside => ?_, fun i h => h.lt_of_stray stray⟩,
    fun i j k h unclosed inside => ?_⟩
  · exact (h.apart_or_within h' order).imp_right fun within => ⟨h'.lt, within⟩
  · exact h.not_stray inside.1 inside.2 stray
  · exact h.not_unclosed inside.1 inside.2 unclosed

/-- A stray closing bracket, an unclosed repeat, and a closed one within it. -/
example : (Program.ofKinds "b" [.repeatEnd, .repeatStart, .repeatStart, .forward, .repeatEnd,
    .wait]).matchingEnds = [none, none, some 4, none, none, none] := by decide

end Labyrinth.Program
