import Labyrinth.Wall.Enumeration

/-!
# Sets of walls

A finite set of walls, kept as the strictly increasing list of its members, so that two sets with
the same members are equal (`WallSet.ext`) and a set has one written order.

Main statements: `mem_insert`, `mem_ofList`, and `ofList_toList`, by which the list of a set is a
normal form.
-/

namespace Labyrinth

/-- A set of walls: its members in increasing order. -/
structure WallSet where
  /-- The members, each once, in order. -/
  toList : List Wall
  sorted : toList.Pairwise Wall.Precedes := by simp
  deriving DecidableEq

namespace WallSet

instance : Membership Wall WallSet := ⟨fun s w => w ∈ s.toList⟩

instance (w : Wall) (s : WallSet) : Decidable (w ∈ s) := inferInstanceAs (Decidable (w ∈ s.toList))

theorem mem_toList {w : Wall} {s : WallSet} : w ∈ s.toList ↔ w ∈ s := Iff.rfl

theorem nodup_toList (s : WallSet) : s.toList.Nodup := by
  refine s.sorted.imp fun {v w} before => ?_
  rintro rfl
  exact Wall.precedes_irrefl v before

/-- The number of members. -/
def size (s : WallSet) : Nat := s.toList.length

/-- The set without members. -/
def empty : WallSet := ⟨[], .nil⟩

/-- Puts a wall at its place in an increasing list, unless it is there already. -/
def place (w : Wall) : List Wall → List Wall
  | [] => [w]
  | v :: rest =>
    if w.Precedes v then w :: v :: rest else if w = v then v :: rest else v :: place w rest

theorem mem_place {w u : Wall} {l : List Wall} : u ∈ place w l ↔ u = w ∨ u ∈ l := by
  induction l with
  | nil => simp [place]
  | cons v rest ih =>
    rw [place]
    split
    · simp
    · split
      · simp_all
      · simp only [List.mem_cons, ih]
        exact or_left_comm

theorem sorted_place {w : Wall} {l : List Wall} (h : l.Pairwise Wall.Precedes) :
    (place w l).Pairwise Wall.Precedes := by
  induction l with
  | nil => simp [place]
  | cons v rest ih =>
    have ⟨first, later⟩ := List.pairwise_cons.1 h
    rw [place]
    split
    · next before =>
      refine List.pairwise_cons.2 ⟨fun u hu => ?_, h⟩
      rcases List.mem_cons.1 hu with rfl | hu
      · exact before
      · exact Wall.precedes_trans before (first u hu)
    · split
      · exact h
      · next notBefore different =>
        refine List.pairwise_cons.2 ⟨fun u hu => ?_, ih later⟩
        rcases mem_place.1 hu with rfl | hu
        · rcases Wall.precedes_trichotomy u v with h | h | h
          · exact absurd h notBefore
          · exact absurd h different
          · exact h
        · exact first u hu

/-- The set with one more member. -/
def insert (s : WallSet) (w : Wall) : WallSet := ⟨place w s.toList, sorted_place s.sorted⟩

/-- The set of the members of a list, in whatever order and however often they are listed. -/
def ofList (l : List Wall) : WallSet := l.foldr (fun w s => s.insert w) empty

@[simp] theorem not_mem_empty (w : Wall) : w ∉ empty := List.not_mem_nil

@[simp] theorem mem_insert {u w : Wall} {s : WallSet} : u ∈ s.insert w ↔ u = w ∨ u ∈ s := mem_place

@[simp] theorem mem_ofList {w : Wall} {l : List Wall} : w ∈ ofList l ↔ w ∈ l := by
  induction l with
  | nil => simp [ofList]
  | cons v rest ih =>
    rw [ofList, List.foldr_cons, ← ofList, mem_insert, ih, List.mem_cons]

/-- Increasing lists with the same members are equal. -/
theorem eq_of_mem_iff {k l : List Wall} (hk : k.Pairwise Wall.Precedes)
    (hl : l.Pairwise Wall.Precedes) (h : ∀ w, w ∈ k ↔ w ∈ l) : k = l := by
  induction k generalizing l with
  | nil =>
    cases l with
    | nil => rfl
    | cons w l => exact absurd ((h w).2 List.mem_cons_self) List.not_mem_nil
  | cons v k ih =>
    cases l with
    | nil => exact absurd ((h v).1 List.mem_cons_self) List.not_mem_nil
    | cons w l =>
      have ⟨vFirst, kSorted⟩ := List.pairwise_cons.1 hk
      have ⟨wFirst, lSorted⟩ := List.pairwise_cons.1 hl
      have same : v = w := by
        rcases List.mem_cons.1 ((h v).1 List.mem_cons_self) with eq | hv
        · exact eq
        · rcases List.mem_cons.1 ((h w).2 List.mem_cons_self) with eq | hw
          · exact eq.symm
          · exact absurd (vFirst w hw) (Wall.precedes_asymm (wFirst v hv))
      subst same
      refine congrArg _ (ih kSorted lSorted fun u => ⟨fun hu => ?_, fun hu => ?_⟩)
      · rcases List.mem_cons.1 ((h u).1 (List.mem_cons_of_mem v hu)) with rfl | hu'
        · exact absurd (vFirst u hu) (Wall.precedes_irrefl u)
        · exact hu'
      · rcases List.mem_cons.1 ((h u).2 (List.mem_cons_of_mem v hu)) with rfl | hu'
        · exact absurd (wFirst u hu) (Wall.precedes_irrefl u)
        · exact hu'

@[ext] theorem ext {s t : WallSet} (h : ∀ w, w ∈ s ↔ w ∈ t) : s = t := by
  have := eq_of_mem_iff s.sorted t.sorted h
  cases s
  cases t
  simp_all

/-- The list of a set gives back the set. -/
@[simp] theorem ofList_toList (s : WallSet) : ofList s.toList = s := by
  ext w
  rw [mem_ofList, mem_toList]

end WallSet

end Labyrinth
