import Labyrinth.Partition

/-!
# Queries on partitions

A caller who looks numbers up and joins them, in any order and with any indices, knows a partition
by its answers only. The two ways to keep disjoint sets are asked the same queries.

**Labels** (`Labelling`). The plain way: every number carries the label of its set, and joining two
sets relabels all members of one. Nothing is linked and nothing changes on a look-up, so this says
what the answers of `Labyrinth.Partition` have to be.
-/

/-! ## Labels -/

namespace Labyrinth

/-- The label of each number. -/
structure Labelling where
  labels : List Nat
  deriving DecidableEq, Repr

namespace Labelling

/-- Every number labelled by itself. -/
def discrete (n : Nat) : Labelling := ⟨List.range n⟩

/-- How many numbers carry a label. -/
def size (s : Labelling) (label : Nat) : Nat := s.labels.count label

/-- Replaces one label by another. -/
def relabel (s : Labelling) (old new : Nat) : Labelling :=
  ⟨s.labels.map fun label => if label = old then new else label⟩

/-- The label of a number. -/
def find (s : Labelling) (x : Nat) : Except Partition.OutOfRange Nat :=
  match s.labels[x]? with
  | some label => .ok label
  | none => .error ⟨s.labels.length, x⟩

/-- Joins the sets of two numbers by relabelling the smaller one, or the second of two equal ones;
the answer says whether they were apart. -/
def union (s : Labelling) (a b : Nat) : Except Partition.OutOfRange Bool × Labelling :=
  match s.find a, s.find b with
  | .error e, _ => (.error e, s)
  | _, .error e => (.error e, s)
  | .ok x, .ok y =>
    if x = y then (.ok false, s)
    else if s.size x < s.size y then (.ok true, s.relabel x y)
    else (.ok true, s.relabel y x)

end Labelling

end Labyrinth

/-! ## Queries -/

namespace Labyrinth.Partition

/-- What may be asked of a partition. -/
inductive Query where
  | find (x : Nat)
  | union (a b : Nat)
  deriving DecidableEq, Repr

/-- What may be answered. -/
inductive Reply where
  | representative (x : Nat)
  /-- Whether the two numbers were apart. -/
  | joined (apart : Bool)
  deriving DecidableEq, Repr

/-- An answer, unless an index is out of range. -/
abbrev Answer := Except OutOfRange Reply

namespace Query

/-- The first index of a query that is not below a bound, if there is one. -/
def refusal? (n : Nat) : Query → Option OutOfRange
  | find x => if x < n then none else some ⟨n, x⟩
  | union a b => if a < n then (if b < n then none else some ⟨n, b⟩) else some ⟨n, a⟩

theorem refusal?_union_eq_none {n a b : Nat} :
    (union a b).refusal? n = none ↔ a < n ∧ b < n := by
  by_cases h : a < n
  · simp [refusal?, h]
  · simp [refusal?, h]

/-- Two numbers below a bound are to be joined by one of some queries. -/
def Joins (n : Nat) (queries : List Query) (a b : Nat) : Prop :=
  .union a b ∈ queries ∧ a < n ∧ b < n

end Query

/-- Answers a query, together with the partition it leaves behind. -/
def ask (p : Partition) : Query → Answer × Partition
  | .find x => let (found, p) := p.find x; (found.map .representative, p)
  | .union a b => let (apart, p) := p.union a b; (apart.map .joined, p)

/-- The partition after some queries. -/
def afterQueries (p : Partition) (queries : List Query) : Partition :=
  queries.foldl (fun p q => (p.ask q).2) p

/-- What some queries answer, in order. -/
def answers : List Query → Partition → List Answer
  | [], _ => []
  | q :: rest, p => (p.ask q).1 :: answers rest (p.ask q).2

end Labyrinth.Partition

namespace Labyrinth.Labelling

open Labyrinth.Partition (Query Answer)

/-- Answers a query, together with the labels it leaves behind. -/
def ask (s : Labelling) : Query → Answer × Labelling
  | .find x => ((s.find x).map .representative, s)
  | .union a b => let (apart, s) := s.union a b; (apart.map .joined, s)

/-- The labels after some queries. -/
def afterQueries (s : Labelling) (queries : List Query) : Labelling :=
  queries.foldl (fun s q => (s.ask q).2) s

/-- What some queries answer, in order. -/
def answers : List Query → Labelling → List Answer
  | [], _ => []
  | q :: rest, s => (s.ask q).1 :: answers rest (s.ask q).2

end Labyrinth.Labelling
