import Mathlib.Data.Nat.Log
import Labyrinth.Proofs.Partition.Queries
import Labyrinth.Proofs.Positions

/-!
# Ways to the representatives are short

**Theorem (`lookups_are_logarithmic`).** Whatever was asked before, the links lead from every number
to a representative, for which the size of its set is kept, and two to the power of the number of
hops is at most that size. So both walks of a look-up end within as many hops as the binary
logarithm of the bound; the second one takes one hop less than the first.

Looking a number up is to walk along its links twice: up to the representative (`Climbs`), and then
from the number on to make what stands on the way point to it (`Shortens`). Here the walks are told
link by link and end only where they have come to their end, so that no bound for their length is in
them.

Each hop leads to a number of higher rank (`Climbs.rank_add_le`), and a label of some rank has two
to the power of it carriers (`Weighed.heavy`). The ranks stay as they are when ways are shortened,
whatever becomes of the subtrees. In the second walk a number that points elsewhere now lies below
all that come after it, so the way ahead is what it was (`Climbs.setParent`).
-/

namespace Labyrinth

theorem Labelling.size_eq_ncard (s : Labelling) (label : Nat) :
    s.size label = {x | x < s.labels.length ∧ s.label x = label}.ncard := by
  rw [size, List.count_eq_countP, countP_eq_ncard]
  congr 1
  ext x
  by_cases inRange : x < s.labels.length <;> simp [positions, Labelling.label, inRange]

namespace Partition

/-! ## The two walks of a look-up -/

/-- The links lead from a number to a representative, in so many hops. -/
inductive Climbs (p : Partition) : Nat → Nat → Nat → Prop
  | here {r : Nat} : p.parent r = r → Climbs p r 0 r
  | hop {x hops r : Nat} : p.parent x ≠ x → Climbs p (p.parent x) hops r → Climbs p x (hops + 1) r

/-- Making the numbers on the way from one number up to `r` point to `r` ends after so many hops,
and leaves a partition. -/
inductive Shortens (r : Nat) : Partition → Nat → Nat → Partition → Prop
  | here {p : Partition} {x : Nat} : p.parent x = r → Shortens r p x 0 p
  | hop {p last : Partition} {x hops : Nat} : p.parent x ≠ r →
      Shortens r (p.setParent x r) (p.parent x) hops last → Shortens r p x (hops + 1) last

variable {p last : Partition} {s : Labelling} {rank : Nat → Nat} {x y r r' hops hops' fuel : Nat}

/-! ## The way up -/

theorem Climbs.parent_eq (way : p.Climbs x hops r) : p.parent r = r := by
  induction way with
  | here isRoot => exact isRoot
  | hop _ _ ih => exact ih

theorem Climbs.unique (way : p.Climbs x hops r) (other : p.Climbs x hops' r') :
    hops' = hops ∧ r' = r := by
  induction way generalizing hops' with
  | here isRoot =>
    cases other with
    | here => exact ⟨rfl, rfl⟩
    | hop notRoot => exact absurd isRoot notRoot
  | hop notRoot _ ih =>
    cases other with
    | here isRoot => exact absurd isRoot notRoot
    | hop _ rest =>
      obtain ⟨rfl, rfl⟩ := ih rest
      exact ⟨rfl, rfl⟩

theorem Climbs.label_eq (way : p.Climbs x hops r) (h : Ranked p s rank) : s.label x = r := by
  induction way with
  | here isRoot => exact h.label_root _ isRoot
  | hop _ _ ih => rwa [h.label_parent] at ih

theorem Climbs.rank_add_le (way : p.Climbs x hops r) (h : Ranked p s rank) :
    rank x + hops ≤ rank r := by
  induction way with
  | here => exact Nat.le_refl _
  | @hop x hops r notRoot _ ih =>
    have up := h.rank_lt x notRoot
    omega

theorem Ranked.exists_climbs (h : Ranked p s rank) (x : Nat) :
    ∃ hops, p.Climbs x hops (s.label x) := by
  generalize left : rank (s.label x) - rank x = n
  induction n using Nat.strong_induction_on generalizing x with
  | _ n ih =>
    by_cases isRoot : p.parent x = x
    · rw [h.label_root x isRoot]
      exact ⟨0, .here isRoot⟩
    · have up := h.rank_lt x isRoot
      have top := h.rank_le (p.parent x)
      have same := h.label_parent x
      rw [same] at top
      obtain ⟨hops, way⟩ := ih _ (by rw [same]; omega) (p.parent x) rfl
      rw [same] at way
      exact ⟨hops + 1, .hop isRoot way⟩

theorem Ranked.exists_climbs_iff (h : Ranked p s rank) :
    (∃ hops, p.Climbs x hops r) ↔ s.label x = r := by
  constructor
  · rintro ⟨hops, way⟩
    exact way.label_eq h
  · rintro rfl
    exact h.exists_climbs x

/-! ## The second walk -/

/-- Where a number points to does not matter to the ways from numbers of higher rank. -/
theorem Climbs.setParent (way : p.Climbs y hops r) (h : Ranked p s rank) (above : rank x < rank y)
    (z : Nat) : (p.setParent x z).Climbs y hops r := by
  have kept (y : Nat) (above : rank x < rank y) : (p.setParent x z).parent y = p.parent y := by
    rw [parent_setParent, if_neg]
    rintro ⟨rfl, -⟩
    exact Nat.lt_irrefl _ above
  induction way with
  | here isRoot => exact .here ((kept _ above).trans isRoot)
  | @hop y hops r notRoot _ ih =>
    have up := h.rank_lt y notRoot
    have later := ih (Nat.lt_trans above up)
    rw [← kept y above] at notRoot later
    exact .hop notRoot later

theorem Climbs.exists_shortens (way : p.Climbs x hops r) (h : Ranked p s rank) :
    ∃ last, Shortens r p x (hops - 1) last := by
  induction hops generalizing p x with
  | zero =>
    cases way with
    | here isRoot => exact ⟨p, .here isRoot⟩
  | succ hops ih =>
    have label := way.label_eq h
    obtain _ | ⟨notRoot, rest⟩ := way
    cases rest with
    | here => exact ⟨p, .here rfl⟩
    | @hop _ hops _ notLast rest =>
      have apart : p.parent x ≠ r := by
        rintro rfl
        exact notLast (Climbs.parent_eq rest)
      have ahead : (p.setParent x r).Climbs (p.parent x) (hops + 1) r :=
        Climbs.setParent (.hop notLast rest) h (h.rank_lt x notRoot) r
      have ranked := h.setParent notRoot
      rw [label] at ranked
      obtain ⟨last, shortens⟩ := ih ahead ranked
      exact ⟨last, .hop apart shortens⟩

theorem Shortens.shorten_eq (walk : Shortens r p x hops last) (enough : hops ≤ fuel) :
    shorten r fuel x p = last := by
  induction walk generalizing fuel with
  | here atEnd =>
    cases fuel with
    | zero => rfl
    | succ fuel => rw [shorten, if_pos atEnd]
  | hop onTheWay _ ih =>
    obtain ⟨fuel, rfl⟩ := Nat.exists_eq_add_one.2 (Nat.lt_of_lt_of_le (Nat.succ_pos _) enough)
    rw [shorten, if_neg onTheWay]
    exact ih (Nat.le_of_succ_le_succ enough)

/-! ## How long they are -/

theorem Weighed.sizes_label (h : Weighed p s rank) (inRange : x < p.bound) :
    p.sizes[s.label x]? = some {y | y < p.bound ∧ ∃ hops, p.Climbs y hops (s.label x)}.ncard := by
  have kept : s.label x < p.sizes.size := by
    rw [h.size_sizes]
    exact h.label_lt x inRange
  have counted := h.sizeAt_label x inRange
  rw [sizeAt, Array.getD_eq_getD_getElem?, Array.getElem?_eq_getElem kept, Option.getD_some,
    Labelling.size_eq_ncard, h.length_labels] at counted
  simp only [h.exists_climbs_iff]
  rw [Array.getElem?_eq_getElem kept, counted]

/-- A way of so many hops has at least as many numbers below its end as a full binary tree of that
height. -/
theorem Climbs.two_pow_le (way : p.Climbs x hops (s.label x)) (h : Weighed p s rank)
    (inRange : x < p.bound) : 2 ^ hops ≤ s.size (s.label x) := by
  have higher : hops ≤ rank (s.label x) := Nat.le_of_add_left_le (way.rank_add_le h.toRanked)
  calc
    2 ^ hops ≤ 2 ^ rank (s.label x) := Nat.pow_le_pow_right Nat.two_pos higher
    _ ≤ s.size (s.label x) := h.heavy x inRange

end Partition

/-- **Look-ups are logarithmic** in the number of elements. -/
theorem Partition.lookups_are_logarithmic (n : Nat) (queries : List Query) (x : Nat)
    (inRange : x < n) :
    let p := (discrete n).afterQueries queries
    ∃ r hops, r < n ∧ (∀ k top, p.Climbs x k top ↔ k = hops ∧ top = r) ∧
      p.sizes[r]? = some {y | y < n ∧ ∃ k, p.Climbs y k r}.ncard ∧
      2 ^ hops ≤ p.sizeAt r ∧ hops ≤ Nat.log 2 n ∧
      ∃ last, Shortens r p x (hops - 1) last ∧ p.find x = (.ok r, last) := by
  intro p
  obtain ⟨rank, h⟩ : p.Represents ((Labelling.discrete n).afterQueries queries) :=
    (Represents.discrete n).afterQueries queries
  have bound : p.bound = n := by
    rw [← h.length_labels, Labelling.length_afterQueries, Labelling.length_discrete]
  generalize (Labelling.discrete n).afterQueries queries = s at h
  rw [← bound] at inRange ⊢
  obtain ⟨hops, way⟩ := h.exists_climbs x
  have large : 2 ^ hops ≤ s.size (s.label x) := way.two_pow_le h inRange
  have within : s.size (s.label x) ≤ p.bound := h.length_labels ▸ s.size_le _
  have short : hops ≤ Nat.log 2 p.bound := Nat.le_log_of_pow_le Nat.one_lt_two (large.trans within)
  obtain ⟨last, walk⟩ := way.exists_shortens h.toRanked
  have found : p.find x = (.ok (s.label x), last) := by
    have fewer : hops - 1 ≤ p.bound := by
      have := Nat.log_le_self 2 p.bound
      omega
    rw [find, if_pos inRange, compress, h.root_eq, walk.shorten_eq fewer]
  refine ⟨s.label x, hops, h.label_lt x inRange, fun k top => ⟨way.unique, ?_⟩,
    h.sizes_label inRange, (h.sizeAt_label x inRange).symm ▸ large, short, last, walk, found⟩
  rintro ⟨rfl, rfl⟩
  exact way

/-- Four numbers joined in pairs, and the pairs joined: a way as long as it can be. -/
theorem Partition.lookups_are_logarithmic_four :
    let p := (discrete 4).afterQueries [.union 0 1, .union 2 3, .union 0 2]
    3 < 4 ∧ p.Climbs 3 2 0 ∧ p.sizes[0]? = some 4 ∧
      {y | y < 4 ∧ ∃ k, p.Climbs y k 0}.ncard = 4 ∧ 2 ^ 2 ≤ p.sizeAt 0 ∧
      Shortens 0 p 3 1 ⟨#[0, 0, 0, 0], #[4, 1, 2, 1]⟩ := by
  intro p
  obtain ⟨r, hops, -, only, size, large, -, last, walk, found⟩ :=
    lookups_are_logarithmic 4 [.union 0 1, .union 2 3, .union 0 2] 3 (by decide)
  have way : p.Climbs 3 2 0 := .hop (by decide) (.hop (by decide) (.here (by decide)))
  obtain ⟨rfl, rfl⟩ := (only 2 0).1 way
  have kept : p.sizes[0]? = some 4 := by decide
  have answer : p.find 3 = (.ok 0, ⟨#[0, 0, 0, 0], #[4, 1, 2, 1]⟩) := by decide
  obtain ⟨-, rfl⟩ := Prod.mk.inj (found.symm.trans answer)
  exact ⟨by decide, way, kept, Option.some.inj (size.symm.trans kept), large, walk⟩

end Labyrinth
