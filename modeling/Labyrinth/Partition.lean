/-!
# Partitions by linked representatives

The numbers below a bound, split into disjoint sets. Each number points to a parent in its set and
each set has one member, its representative, that points to itself. Looking a number up shortens
the way for the next look-up; joining two sets hangs the smaller one below the larger one.

**State** (`Partition`). The parents, and for each representative the size of its set; the sizes
kept for other numbers are out of date and never read.

**Operations.** `find` and `union`, which answer together with the partition they leave behind. An
index out of range is refused; a `union` that refuses its second index has already looked up the
first.
-/

namespace Labyrinth

/-- Disjoint sets over the numbers below `parents.size`. -/
structure Partition where
  parents : Array Nat
  sizes : Array Nat
  deriving DecidableEq, Repr

namespace Partition

/-- An index that is not below the bound. -/
structure OutOfRange where
  bound : Nat
  index : Nat
  deriving DecidableEq, Repr

/-- The wording of a refused index. -/
def OutOfRange.message (e : OutOfRange) : String :=
  s!"index out of bounds: the len is {e.bound} but the index is {e.index}"

/-- Every number in a set of its own. -/
def discrete (n : Nat) : Partition := ⟨Array.range n, Array.replicate n 1⟩

/-- The bound of the numbers. -/
def bound (p : Partition) : Nat := p.parents.size

/-- The parent of a number; a number out of range is its own parent. -/
def parent (p : Partition) (x : Nat) : Nat := p.parents.getD x x

/-- The size kept for a number. -/
def sizeAt (p : Partition) (x : Nat) : Nat := p.sizes.getD x 0

/-- Follows parents from a number until one points to itself, at most `fuel` times. -/
def climb (p : Partition) : Nat → Nat → Nat
  | 0, x => x
  | fuel + 1, x => if p.parent x = x then x else p.climb fuel (p.parent x)

/-- The representative of a number. No way up is longer than there are numbers. -/
def root (p : Partition) (x : Nat) : Nat := p.climb p.bound x

/-- The partition in which a number points to another. -/
def setParent (p : Partition) (x y : Nat) : Partition :=
  { p with parents := p.parents.setIfInBounds x y }

/-- Makes the numbers on the way from `x` up to `r` point to `r`, at most `fuel` of them. -/
def shorten (r : Nat) : Nat → Nat → Partition → Partition
  | 0, _, p => p
  | fuel + 1, x, p =>
    if p.parent x = r then p else shorten r fuel (p.parent x) (p.setParent x r)

/-- The partition after looking a number up. -/
def compress (p : Partition) (x : Nat) : Partition := shorten (p.root x) p.bound x p

/-- Hangs a representative below another and adds the sizes. -/
def hang (p : Partition) (child top : Nat) : Partition where
  parents := p.parents.setIfInBounds child top
  sizes := p.sizes.setIfInBounds top (p.sizeAt top + p.sizeAt child)

/-- Joins the sets of two different representatives: the larger set keeps its representative, and
of two equal sets the first does. -/
def link (p : Partition) (a b : Nat) : Partition :=
  if p.sizeAt a < p.sizeAt b then p.hang a b else p.hang b a

/-- The representative of a number. -/
def find (p : Partition) (x : Nat) : Except OutOfRange Nat × Partition :=
  if x < p.bound then (.ok (p.root x), p.compress x) else (.error ⟨p.bound, x⟩, p)

/-- Joins the sets of two numbers; the answer says whether they were apart. -/
def union (p : Partition) (a b : Nat) : Except OutOfRange Bool × Partition :=
  match p.find a with
  | (.error e, p) => (.error e, p)
  | (.ok rootA, p) =>
    match p.find b with
    | (.error e, p) => (.error e, p)
    | (.ok rootB, p) => if rootA = rootB then (.ok false, p) else (.ok true, p.link rootA rootB)

/-! ## Bounds -/

@[simp] theorem bound_discrete (n : Nat) : (discrete n).bound = n := by simp [discrete, bound]

@[simp] theorem bound_setParent (p : Partition) (x y : Nat) :
    (p.setParent x y).bound = p.bound := by
  simp [setParent, bound]

@[simp] theorem bound_shorten (r fuel x : Nat) (p : Partition) :
    (shorten r fuel x p).bound = p.bound := by
  induction fuel generalizing x p with
  | zero => rfl
  | succ fuel ih =>
    rw [shorten]
    split
    · rfl
    · rw [ih, bound_setParent]

@[simp] theorem bound_compress (p : Partition) (x : Nat) : (p.compress x).bound = p.bound :=
  bound_shorten ..

@[simp] theorem bound_link (p : Partition) (a b : Nat) : (p.link a b).bound = p.bound := by
  unfold link
  split <;> simp [hang, bound]

end Partition

end Labyrinth
