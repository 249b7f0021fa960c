import Mathlib.Algebra.Group.Nat.Defs
import Labyrinth.Partition.Queries

/-!
# Linked representatives keep the labels

**Abstraction** (`Partition.Represents`). A partition represents a labelling when the label of a
number is what its links lead up to. There are ranks that grow along every link
(`Partition.Ranked`), the size kept for a label is the number of its carriers, and that is at least
two to the power of its rank (`Partition.Weighed`). The ranks are not stored: they bound the way up,
which is why climbing ends (`Ranked.climb_eq`, `Weighed.root_eq`).

**Operations.** Shortening a way leaves the labels and the ranks as they are (`Weighed.shorten`).
Hanging one label below another relabels one of the two sets and raises a single rank
(`Weighed.hang`).

**Theorems (`Represents.find`, `Represents.union`).** Looking a number up answers its label and
keeps the labels. Joining two numbers answers and does what relabelling does, whichever numbers are
asked for.
-/

namespace Labyrinth

namespace Labelling

variable {s : Labelling} {x y old new : Nat}

/-- The label of a number. A number that has none stands for itself. -/
def label (s : Labelling) (x : Nat) : Nat := s.labels.getD x x

theorem label_of_le (h : s.labels.length ≤ x) : s.label x = x := by
  simp [label, h]

theorem find_of_lt (h : x < s.labels.length) : s.find x = .ok (s.label x) := by
  simp [find, label, h]

theorem find_of_le (h : s.labels.length ≤ x) : s.find x = .error ⟨s.labels.length, x⟩ := by
  simp [find, h]

@[simp] theorem label_discrete (n : Nat) : (discrete n).label x = x := by
  by_cases h : x < n
  · simp [label, discrete, h]
  · simp [label, discrete, Nat.not_lt.1 h]

@[simp] theorem length_discrete (n : Nat) : (discrete n).labels.length = n := List.length_range

@[simp] theorem length_relabel : (s.relabel old new).labels.length = s.labels.length :=
  List.length_map _

theorem label_relabel (h : old < s.labels.length) :
    (s.relabel old new).label x = if s.label x = old then new else s.label x := by
  by_cases inRange : x < s.labels.length
  · simp [label, relabel, inRange]
  · have other : x ≠ old := by omega
    rw [label_of_le (by simpa using inRange), label_of_le (Nat.not_lt.1 inRange), if_neg other]

theorem union_of_lt {a b : Nat} (h : a < s.labels.length) (h' : b < s.labels.length) :
    s.union a b =
      if s.label a = s.label b then (.ok false, s)
      else (.ok true, if s.size (s.label a) < s.size (s.label b)
        then s.relabel (s.label a) (s.label b) else s.relabel (s.label b) (s.label a)) := by
  by_cases joined : s.label a = s.label b
  · simp [union, find_of_lt h, find_of_lt h', joined]
  · by_cases smaller : s.size (s.label a) < s.size (s.label b) <;>
      simp [union, find_of_lt h, find_of_lt h', joined, smaller]

theorem union_of_le_left {a : Nat} (h : s.labels.length ≤ a) (b : Nat) :
    s.union a b = (.error ⟨s.labels.length, a⟩, s) := by
  rw [union, find_of_le h]

theorem union_of_le_right {a b : Nat} (h : a < s.labels.length) (h' : s.labels.length ≤ b) :
    s.union a b = (.error ⟨s.labels.length, b⟩, s) := by
  rw [union, find_of_lt h, find_of_le h']

/-! ## Carriers of a label -/

theorem size_le (s : Labelling) (label : Nat) : s.size label ≤ s.labels.length :=
  List.count_le_length

theorem size_discrete {n : Nat} (h : x < n) : (discrete n).size x = 1 := by
  simp [size, discrete, List.count_range, h]

/-- The new label is carried by those that had it and by those that had the old one. -/
theorem size_relabel_new (h : old ≠ new) :
    (s.relabel old new).size new = s.size new + s.size old := by
  simp only [size, relabel]
  induction s.labels with
  | nil => rfl
  | cons l rest ih =>
    simp only [List.map_cons, List.count_cons, ih]
    by_cases isOld : l = old
    · simp [isOld, h]
      omega
    · by_cases isNew : l = new
      · simp [isNew, h.symm]
        omega
      · simp [isOld, isNew]

theorem size_relabel_of_ne (h : y ≠ old) (h' : y ≠ new) :
    (s.relabel old new).size y = s.size y := by
  simp only [size, relabel]
  induction s.labels with
  | nil => rfl
  | cons l rest ih =>
    simp only [List.map_cons, List.count_cons, ih]
    by_cases isOld : l = old
    · simp [isOld, h.symm, h'.symm]
    · simp [isOld]

@[simp] theorem length_union (s : Labelling) (a b : Nat) :
    (s.union a b).2.labels.length = s.labels.length := by
  by_cases h : a < s.labels.length
  · by_cases h' : b < s.labels.length
    · rw [union_of_lt h h']
      split
      · rfl
      · split <;> exact length_relabel
    · rw [union_of_le_right h (Nat.not_lt.1 h')]
  · rw [union_of_le_left (Nat.not_lt.1 h)]

/-- Joining two numbers merges their two sets and nothing else. -/
theorem label_union_eq_iff {a b : Nat} (h : a < s.labels.length) (h' : b < s.labels.length)
    (bounded : s.label a < s.labels.length) (bounded' : s.label b < s.labels.length) :
    (s.union a b).2.label x = (s.union a b).2.label y ↔
      s.label x = s.label y ∨ (s.label x = s.label a ∧ s.label b = s.label y) ∨
        (s.label x = s.label b ∧ s.label a = s.label y) := by
  rw [union_of_lt h h']
  by_cases joined : s.label a = s.label b
  · rw [if_pos joined, ← joined]
    constructor
    · exact .inl
    · rintro (same | ⟨first, last⟩ | ⟨first, last⟩)
      · exact same
      · exact first.trans last
      · exact first.trans last
  · rw [if_neg joined]
    split
    · rw [label_relabel bounded, label_relabel bounded]
      split <;> split <;> omega
    · rw [label_relabel bounded', label_relabel bounded']
      split <;> split <;> omega

end Labelling

namespace Partition

variable {p : Partition} {s : Labelling} {rank : Nat → Nat} {x y : Nat}

theorem parent_of_le (h : p.bound ≤ x) : p.parent x = x := by
  unfold bound at h
  simp [parent, h]

theorem parent_discrete (n x : Nat) : (discrete n).parent x = x := by
  by_cases h : x < n
  · simp [parent, discrete, h]
  · simp [parent, discrete, Nat.not_lt.1 h]

theorem parent_setParent (p : Partition) (x y z : Nat) :
    (p.setParent x y).parent z = if z = x ∧ x < p.bound then y else p.parent z := by
  simp only [parent, setParent, bound, Array.getD_eq_getD_getElem?, Array.getElem?_setIfInBounds]
  by_cases same : x = z
  · subst same
    by_cases inRange : x < p.parents.size <;> simp [inRange]
  · simp [same, Ne.symm same]

@[simp] theorem sizes_setParent (p : Partition) (x y : Nat) :
    (p.setParent x y).sizes = p.sizes := rfl

@[simp] theorem sizeAt_setParent (p : Partition) (x y z : Nat) :
    (p.setParent x y).sizeAt z = p.sizeAt z := rfl

theorem parent_hang (p : Partition) (child top z : Nat) :
    (p.hang child top).parent z = if z = child ∧ child < p.bound then top else p.parent z :=
  parent_setParent p child top z

theorem sizeAt_hang (p : Partition) (child top z : Nat) :
    (p.hang child top).sizeAt z =
      if z = top ∧ top < p.sizes.size then p.sizeAt top + p.sizeAt child else p.sizeAt z := by
  simp only [sizeAt, hang, Array.getD_eq_getD_getElem?, Array.getElem?_setIfInBounds]
  by_cases same : top = z
  · subst same
    by_cases inRange : top < p.sizes.size <;> simp [inRange]
  · simp [same, Ne.symm same]

@[simp] theorem bound_hang (p : Partition) (child top : Nat) :
    (p.hang child top).bound = p.bound := by
  simp [hang, bound]

/-! ## What the links keep -/

/-- The links lead to the labels, with ranks that grow along them. -/
structure Ranked (p : Partition) (s : Labelling) (rank : Nat → Nat) : Prop where
  length_labels : s.labels.length = p.bound
  label_lt : ∀ x, x < p.bound → s.label x < p.bound
  parent_label : ∀ x, p.parent (s.label x) = s.label x
  label_parent : ∀ x, s.label (p.parent x) = s.label x
  label_root : ∀ x, p.parent x = x → s.label x = x
  rank_lt : ∀ x, p.parent x ≠ x → rank x < rank (p.parent x)
  rank_le : ∀ x, rank x ≤ rank (s.label x)

/-- Besides, the sizes kept for the labels are right, and large for the ranks. -/
structure Weighed (p : Partition) (s : Labelling) (rank : Nat → Nat) : Prop
    extends Ranked p s rank where
  size_sizes : p.sizes.size = p.bound
  /-- The size kept for a label is the number of its carriers. -/
  sizeAt_label : ∀ x, x < p.bound → p.sizeAt (s.label x) = s.size (s.label x)
  /-- A label of some rank has at least as many carriers as a full binary tree of that height. -/
  heavy : ∀ x, x < p.bound → 2 ^ rank (s.label x) ≤ s.size (s.label x)

/-- What the links of the partition lead up to are the labels. -/
def Represents (p : Partition) (s : Labelling) : Prop := ∃ rank, Weighed p s rank

theorem Weighed.discrete (n : Nat) : Weighed (.discrete n) (.discrete n) fun _ => 0 where
  length_labels := by simp
  label_lt x h := by simpa using h
  parent_label x := by simp [parent_discrete]
  label_parent x := by simp [parent_discrete]
  label_root x _ := by simp
  rank_lt x h := absurd (parent_discrete n x) h
  rank_le _ := Nat.le_refl _
  size_sizes := by simp [Partition.discrete, bound]
  sizeAt_label x h := by
    rw [bound_discrete] at h
    simp [Labelling.size_discrete h, sizeAt, Partition.discrete, h]
  heavy x h := by
    rw [bound_discrete] at h
    simp [Labelling.size_discrete h]

/-! ## Climbing -/

theorem Ranked.label_label (h : Ranked p s rank) (x : Nat) : s.label (s.label x) = s.label x :=
  h.label_root _ (h.parent_label x)

/-- The steps up to the label are no more than the ranks differ. -/
theorem Ranked.climb_eq (h : Ranked p s rank) {fuel : Nat}
    (enough : rank (s.label x) ≤ fuel + rank x) : p.climb fuel x = s.label x := by
  induction fuel generalizing x with
  | zero =>
    by_cases isRoot : p.parent x = x
    · exact (h.label_root x isRoot).symm
    · -- one more link would lead above the rank of the label
      have up := h.rank_lt x isRoot
      have top := h.rank_le (p.parent x)
      rw [h.label_parent] at top
      omega
  | succ fuel ih =>
    rw [climb]
    by_cases isRoot : p.parent x = x
    · rw [if_pos isRoot, h.label_root x isRoot]
    · have up := h.rank_lt x isRoot
      rw [if_neg isRoot, ih (by rw [h.label_parent]; omega), h.label_parent]

theorem Weighed.rank_label_lt (h : Weighed p s rank) (inRange : x < p.bound) :
    rank (s.label x) < p.bound := by
  have heavy := h.heavy x inRange
  have count := s.size_le (s.label x)
  have power := Nat.lt_two_pow_self (n := rank (s.label x))
  rw [h.length_labels] at count
  omega

theorem Weighed.root_eq (h : Weighed p s rank) (x : Nat) : p.root x = s.label x := by
  apply h.climb_eq
  by_cases inRange : x < p.bound
  · have := h.rank_label_lt inRange
    omega
  · have same := h.label_root x (parent_of_le (Nat.not_lt.1 inRange))
    rw [same]
    omega

/-! ## Shortening -/

/-- Pointing a number straight to its label keeps the labels. -/
theorem Ranked.setParent (h : Ranked p s rank) (notRoot : p.parent x ≠ x) :
    Ranked (p.setParent x (s.label x)) s rank := by
  have up : rank x < rank (s.label x) := by
    have first := h.rank_lt x notRoot
    have rest := h.rank_le (p.parent x)
    rw [h.label_parent] at rest
    omega
  -- labels are roots, so no label points elsewhere now
  have notLabel : ∀ z, s.label z ≠ x := by
    rintro z rfl
    exact notRoot (h.parent_label z)
  refine { h with
    length_labels := by rw [h.length_labels, bound_setParent]
    label_lt := by simpa using h.label_lt
    parent_label := fun z => ?_
    label_parent := fun z => ?_
    label_root := fun z => ?_
    rank_lt := fun z => ?_ }
  · rw [parent_setParent, if_neg fun same => notLabel z same.1, h.parent_label]
  · rw [parent_setParent]
    split
    · next same => rw [same.1, h.label_label]
    · exact h.label_parent z
  · rw [parent_setParent]
    split
    · next same =>
      intro isRoot
      rw [same.1] at isRoot ⊢
      exact isRoot
    · exact h.label_root z
  · rw [parent_setParent]
    split
    · next same => exact fun _ => same.1 ▸ up
    · exact h.rank_lt z

theorem Weighed.setParent (h : Weighed p s rank) (notRoot : p.parent x ≠ x) :
    Weighed (p.setParent x (s.label x)) s rank where
  toRanked := h.toRanked.setParent notRoot
  size_sizes := by simpa using h.size_sizes
  sizeAt_label := by simpa using h.sizeAt_label
  heavy := by simpa using h.heavy

theorem Weighed.shorten (h : Weighed p s rank) {r fuel : Nat} (label : s.label x = r) :
    Weighed (shorten r fuel x p) s rank := by
  induction fuel generalizing p x with
  | zero => exact h
  | succ fuel ih =>
    rw [Partition.shorten]
    by_cases last : p.parent x = r
    · rwa [if_pos last]
    · have notRoot : p.parent x ≠ x := fun isRoot =>
        last (by rw [← label, h.label_root x isRoot, isRoot])
      subst label
      rw [if_neg last]
      exact ih (h.setParent notRoot) (h.label_parent x)

theorem Weighed.compress (h : Weighed p s rank) (x : Nat) : Weighed (p.compress x) s rank :=
  h.shorten (h.root_eq x).symm

/-! ## Hanging one label below another -/

/-- The ranks after hanging one number below another. -/
def raise (rank : Nat → Nat) (child top : Nat) (x : Nat) : Nat :=
  if x = top then max (rank top) (rank child + 1) else rank x

section raise

variable {child top : Nat}

theorem raise_of_ne (h : x ≠ top) : raise rank child top x = rank x := if_neg h

theorem le_raise (x : Nat) : rank x ≤ raise rank child top x := by
  by_cases isTop : x = top
  · subst isTop
    rw [raise, if_pos rfl]
    exact Nat.le_max_left ..
  · exact Nat.le_of_eq (raise_of_ne isTop).symm

theorem lt_raise_top : rank child < raise rank child top top := by
  simp only [raise, if_true]
  omega

/-- The sizes added up are enough for the raised rank. -/
theorem two_pow_raise_le {n k : Nat} (childHeavy : 2 ^ rank child ≤ k) (topHeavy : 2 ^ rank top ≤ n)
    (smaller : k ≤ n) : 2 ^ raise rank child top top ≤ n + k := by
  simp only [raise, if_true]
  rcases Nat.le_total (rank top) (rank child + 1) with higher | higher
  · rw [Nat.max_eq_right higher, Nat.pow_succ]
    omega
  · rw [Nat.max_eq_left higher]
    omega

end raise

section hang

variable {child top : Nat}

theorem Ranked.label_hang (h : Ranked p s rank) (inRange : child < p.bound) (z : Nat) :
    (s.relabel child top).label z = if s.label z = child then top else s.label z :=
  Labelling.label_relabel (by rwa [h.length_labels])

/-- Hanging a label below another one relabels its set. -/
theorem Ranked.hang (h : Ranked p s rank) (inRange : child < p.bound) (inRange' : top < p.bound)
    (isLabel : s.label child = child) (isLabel' : s.label top = top) (apart : child ≠ top) :
    Ranked (p.hang child top) (s.relabel child top) (raise rank child top) := by
  have parent (z : Nat) : (p.hang child top).parent z = if z = child then top else p.parent z := by
    simp [parent_hang, inRange]
  have topIsRoot : p.parent top = top := by simpa [isLabel'] using h.parent_label top
  constructor
  case length_labels => rw [Labelling.length_relabel, h.length_labels, bound_hang]
  case label_lt =>
    intro x below
    rw [bound_hang] at below ⊢
    rw [h.label_hang inRange]
    split
    · exact inRange'
    · exact h.label_lt x below
  case parent_label =>
    intro x
    rw [h.label_hang inRange]
    by_cases moved : s.label x = child
    · rw [if_pos moved, parent, if_neg apart.symm, topIsRoot]
    · rw [if_neg moved, parent, if_neg moved, h.parent_label]
  case label_parent =>
    intro x
    rw [parent]
    by_cases isChild : x = child
    · simp [h.label_hang inRange, isChild, isLabel, isLabel', apart.symm]
    · simp [h.label_hang inRange, isChild, h.label_parent]
  case label_root =>
    intro x
    rw [parent, h.label_hang inRange]
    by_cases isChild : x = child
    · rw [if_pos isChild, isChild]
      exact fun same => absurd same.symm apart
    · rw [if_neg isChild]
      intro isRoot
      rw [h.label_root x isRoot, if_neg isChild]
  case rank_lt =>
    intro x
    rw [parent]
    by_cases isChild : x = child
    · rw [if_pos isChild, isChild, raise_of_ne apart]
      exact fun _ => lt_raise_top
    · rw [if_neg isChild]
      intro notRoot
      -- the rank of `top` alone has changed, and a root points nowhere else
      have notTop : x ≠ top := by
        rintro rfl
        exact notRoot topIsRoot
      rw [raise_of_ne notTop]
      exact Nat.lt_of_lt_of_le (h.rank_lt x notRoot) (le_raise _)
  case rank_le =>
    intro x
    rw [h.label_hang inRange]
    by_cases isTop : x = top
    · simp [isTop, isLabel', apart.symm]
    · have top := h.rank_le x
      rw [raise_of_ne isTop]
      split
      · next moved =>
        rw [moved] at top
        exact Nat.le_trans top (Nat.le_of_lt lt_raise_top)
      · exact Nat.le_trans top (le_raise _)

/-- Hanging the label of the smaller set below another one keeps the sizes right. -/
theorem Weighed.hang (h : Weighed p s rank) (inRange : child < p.bound) (inRange' : top < p.bound)
    (isLabel : s.label child = child) (isLabel' : s.label top = top) (apart : child ≠ top)
    (smaller : s.size child ≤ s.size top) :
    Weighed (p.hang child top) (s.relabel child top) (raise rank child top) := by
  have sizeTop : p.sizeAt top = s.size top := by
    simpa [isLabel'] using h.sizeAt_label top inRange'
  have sizeChild : p.sizeAt child = s.size child := by
    simpa [isLabel] using h.sizeAt_label child inRange
  have heavyTop : 2 ^ raise rank child top top ≤ s.size top + s.size child := by
    apply two_pow_raise_le ?_ ?_ smaller
    · simpa [isLabel] using h.heavy child inRange
    · simpa [isLabel'] using h.heavy top inRange'
  constructor
  case toRanked => exact h.toRanked.hang inRange inRange' isLabel isLabel' apart
  case size_sizes => simp [Partition.hang, bound, h.size_sizes]
  -- only `top` has new carriers; whoever is not labelled by it kept its label
  case sizeAt_label =>
    intro x below
    rw [bound_hang] at below
    rw [h.label_hang inRange, sizeAt_hang, h.size_sizes, sizeTop, sizeChild]
    by_cases isTop : (if s.label x = child then top else s.label x) = top
    · rw [isTop, if_pos ⟨rfl, inRange'⟩, Labelling.size_relabel_new apart]
    · have kept : s.label x ≠ child := fun moved => isTop (if_pos moved)
      rw [if_neg kept] at isTop ⊢
      rw [if_neg fun same => isTop same.1, h.sizeAt_label x below,
        Labelling.size_relabel_of_ne kept isTop]
  case heavy =>
    intro x below
    rw [bound_hang] at below
    rw [h.label_hang inRange]
    by_cases isTop : (if s.label x = child then top else s.label x) = top
    · rwa [isTop, Labelling.size_relabel_new apart]
    · have kept : s.label x ≠ child := fun moved => isTop (if_pos moved)
      rw [if_neg kept] at isTop ⊢
      rw [raise_of_ne isTop, Labelling.size_relabel_of_ne kept isTop]
      exact h.heavy x below

end hang

/-- Linking two labels relabels the smaller set, or the second of two equal ones. -/
theorem Weighed.link (h : Weighed p s rank) {a b : Nat} (inRange : a < p.bound)
    (inRange' : b < p.bound) (apart : s.label a ≠ s.label b) :
    (p.link (s.label a) (s.label b)).Represents
      (if s.size (s.label a) < s.size (s.label b) then s.relabel (s.label a) (s.label b)
        else s.relabel (s.label b) (s.label a)) := by
  have lt := h.label_lt a inRange
  have lt' := h.label_lt b inRange'
  rw [Partition.link, h.sizeAt_label a inRange, h.sizeAt_label b inRange']
  split
  · next smaller =>
    exact ⟨_, h.hang lt lt' (h.label_label a) (h.label_label b) apart (Nat.le_of_lt smaller)⟩
  · next notSmaller =>
    have smaller := Nat.not_lt.1 notSmaller
    exact ⟨_, h.hang lt' lt (h.label_label b) (h.label_label a) apart.symm smaller⟩

/-! ## The operations -/

theorem Represents.discrete (n : Nat) : (discrete n).Represents (.discrete n) := ⟨_, .discrete n⟩

theorem Represents.label_lt (h : p.Represents s) (inRange : x < s.labels.length) :
    s.label x < s.labels.length := by
  obtain ⟨rank, h⟩ := h
  rw [h.length_labels] at inRange ⊢
  exact h.label_lt x inRange

/-- Looking a number up answers its label and keeps the labels. -/
theorem Represents.find (h : p.Represents s) (x : Nat) :
    (p.find x).1 = s.find x ∧ (p.find x).2.Represents s := by
  obtain ⟨rank, h⟩ := h
  by_cases inRange : x < p.bound
  · rw [Partition.find, if_pos inRange, Labelling.find_of_lt (by rwa [h.length_labels])]
    exact ⟨congrArg _ (h.root_eq x), rank, h.compress x⟩
  · rw [Partition.find, if_neg inRange, ← h.length_labels,
      Labelling.find_of_le (by rw [h.length_labels]; omega)]
    exact ⟨rfl, rank, h⟩

theorem union_of_lt {a b : Nat} (inRange : a < p.bound) (inRange' : b < p.bound) :
    p.union a b =
      if p.root a = (p.compress a).root b then (.ok false, (p.compress a).compress b)
      else (.ok true, ((p.compress a).compress b).link (p.root a) ((p.compress a).root b)) := by
  have found : p.find a = (.ok (p.root a), p.compress a) := if_pos inRange
  have found' : (p.compress a).find b = (.ok ((p.compress a).root b), (p.compress a).compress b) :=
    if_pos (by simpa using inRange')
  rw [union, found]
  simp only [found']

theorem union_of_le_left {a : Nat} (outside : p.bound ≤ a) (b : Nat) :
    p.union a b = (.error ⟨p.bound, a⟩, p) := by
  have refused : p.find a = (.error ⟨p.bound, a⟩, p) := if_neg (Nat.not_lt.2 outside)
  rw [union, refused]

theorem union_of_le_right {a b : Nat} (inRange : a < p.bound) (outside : p.bound ≤ b) :
    p.union a b = (.error ⟨p.bound, b⟩, p.compress a) := by
  have found : p.find a = (.ok (p.root a), p.compress a) := if_pos inRange
  have refused : (p.compress a).find b = (.error ⟨p.bound, b⟩, p.compress a) := by
    rw [Partition.find, bound_compress, if_neg (Nat.not_lt.2 outside)]
  rw [union, found]
  simp only [refused]

theorem exists_union_eq_ok {a b : Nat} (inRange : a < p.bound) (inRange' : b < p.bound) :
    ∃ apart joined, p.union a b = (.ok apart, joined) := by
  rw [union_of_lt inRange inRange']
  split
  · exact ⟨false, _, rfl⟩
  · exact ⟨true, _, rfl⟩

@[simp] theorem bound_union (p : Partition) (a b : Nat) : (p.union a b).2.bound = p.bound := by
  by_cases inRange : a < p.bound
  · by_cases inRange' : b < p.bound
    · rw [union_of_lt inRange inRange']
      split <;> simp
    · rw [union_of_le_right inRange (Nat.not_lt.1 inRange'), bound_compress]
  · rw [union_of_le_left (Nat.not_lt.1 inRange)]

/-- Joining two numbers answers and does what relabelling does. -/
theorem Represents.union (h : p.Represents s) (a b : Nat) :
    (p.union a b).1 = (s.union a b).1 ∧ (p.union a b).2.Represents (s.union a b).2 := by
  obtain ⟨rank, h⟩ := h
  by_cases inRange : a < p.bound
  · by_cases inRange' : b < p.bound
    · have shortened : Weighed ((p.compress a).compress b) s rank := (h.compress a).compress b
      rw [union_of_lt inRange inRange', h.root_eq, (h.compress a).root_eq,
        Labelling.union_of_lt (by rwa [h.length_labels]) (by rwa [h.length_labels])]
      by_cases joined : s.label a = s.label b
      · rw [if_pos joined, if_pos joined]
        exact ⟨rfl, rank, shortened⟩
      · rw [if_neg joined, if_neg joined]
        exact ⟨rfl, shortened.link (by simpa using inRange) (by simpa using inRange') joined⟩
    · rw [union_of_le_right inRange (Nat.not_lt.1 inRange'), ← h.length_labels,
        Labelling.union_of_le_right (by rwa [h.length_labels])
          (by rw [h.length_labels]; exact Nat.not_lt.1 inRange')]
      exact ⟨rfl, rank, h.compress a⟩
  · rw [union_of_le_left (Nat.not_lt.1 inRange), ← h.length_labels,
      Labelling.union_of_le_left (by rw [h.length_labels]; exact Nat.not_lt.1 inRange)]
    exact ⟨rfl, rank, h⟩

end Partition

end Labyrinth
