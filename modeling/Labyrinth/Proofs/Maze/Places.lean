import Labyrinth.Maze.Checked
import Labyrinth.Proofs.Maze.Encoding

/-!
# Edges and places

**Theorem (`edges_and_places_exact`).** On a proper grid each pair of neighbours is listed as an
edge once, with the wall between its cells, and nothing else is listed. The places number the cells
of the grid without a gap. So whatever the order of the edges, the partition is asked to join places
in its range only. And where words of 32 bits hold the extent of the grid, generating with its
numbers checked goes like generating that checks nothing.

The places of the cells in reading order are the numbers from the first on (`map_cellIndex_cells`).
Joining never changes the bound of the partition, so it stays the number of cells
(`bound_carveAll`). A place is the number of cells in the rows above and of those before it in its
own row; neither exceeds the place, and a place is below the number of cells (`cellIndex?_eq`).
-/

namespace Labyrinth

variable {g : Grid} {c : Cell} {e : Edge} {order : List Edge} {s : Carving}

namespace Grid

/-- **Each pair of neighbours is listed once,** and no other pair of cells is. -/
theorem count_pairs_edges (g : Grid) (a b : Cell) :
    (g.edges.map fun e => s(e.a, e.b)).count s(a, b) =
      if g.Contains a ∧ g.Contains b ∧ a.manhattan b = 1 then 1 else 0 := by
  have distinct : (g.edges.map fun e => s(e.a, e.b)).Nodup :=
    List.Nodup.map_on (fun e h e' h' same => edge_eq_of_pair h h' same) g.nodup_edges
  rw [distinct.count]
  refine if_congr ?_ rfl rfl
  rw [← neighbors_adj_iff_manhattan, neighbors_adj_iff, List.mem_map]

/-! ## Places -/

theorem range_rows (columns rows : Nat) :
    ((List.range rows).flatMap fun y => (List.range columns).map fun x => y * columns + x) =
      List.range (rows * columns) := by
  induction rows with
  | zero => simp
  | succ rows ih =>
    rw [List.range_succ, List.flatMap_append, ih, List.flatMap_singleton, Nat.succ_mul,
      List.range_add]

/-- **In reading order the cells have the places from the first on.** -/
theorem map_cellIndex_cells (g : Grid) : g.cells.map g.cellIndex = List.range g.cellCount := by
  rw [cellCount, Nat.mul_comm, ← range_rows, cells, List.map_flatMap]
  simp only [upTo, List.flatMap_map, List.map_map]
  rfl

theorem bijOn_cellIndex (g : Grid) :
    Set.BijOn g.cellIndex {c | g.Contains c} {place | place < g.cellCount} := by
  refine ⟨fun c on => cellIndex_lt on, fun a ha b hb same => cellIndex_inj ha hb same, ?_⟩
  intro place below
  have listed : place ∈ g.cells.map g.cellIndex := by
    rw [map_cellIndex_cells]
    exact List.mem_range.2 below
  obtain ⟨c, mem, same⟩ := List.mem_map.1 listed
  exact ⟨c, mem_cells.1 mem, same⟩

end Grid

/-! ## The range of the partition -/

namespace Carving

theorem bound_carve (g : Grid) (s : Carving) (e : Edge) :
    (carve g s e).joined.bound = s.joined.bound := by
  rw [joined_carve, Partition.bound_union]

theorem bound_foldl_carve (g : Grid) (order : List Edge) (s : Carving) :
    (order.foldl (carve g) s).joined.bound = s.joined.bound := by
  induction order generalizing s with
  | nil => rfl
  | cons e rest ih => rw [List.foldl_cons, ih, bound_carve]

theorem bound_carveAll (g : Grid) (order : List Edge) :
    (carveAll g order).joined.bound = g.cellCount := by
  rw [carveAll, bound_foldl_carve]
  exact Partition.bound_discrete g.cellCount

end Carving

/-! ## Words -/

theorem signedWord?_of_sized {n : Int} (h : Sized n) : signedWord? n = some n := if_pos h

theorem longWord?_of_lt {n : Nat} (h : n < UInt64.size) : longWord? n = some n := if_pos h

theorem unsigned?_of_sized {n : Int} (h : Sized n) (nonneg : 0 ≤ n) :
    unsigned? n = some n.toNat := by
  obtain ⟨-, upper⟩ := h
  rw [unsigned?, if_pos nonneg, longWord?_of_lt]
  simp only [UInt64.size]
  omega

theorem Cell.neighbor?_of_sized {d : Heading} (h : (c + d.step).Sized) :
    c.neighbor? d = some (c + d.step) := by
  have x : signedWord? (c.x + d.step.x) = some (c + d.step).x := signedWord?_of_sized h.1
  have y : signedWord? (c.y + d.step.y) = some (c + d.step).y := signedWord?_of_sized h.2
  rw [neighbor?, x, y]
  rfl

namespace Grid

theorem Sized.cellCount_lt (h : g.Sized) : g.cellCount < UInt64.size := by
  obtain ⟨⟨-, wide⟩, -, high⟩ := h
  have columns : g.width.toNat ≤ 0x7fffffff := by omega
  have rows : g.height.toNat ≤ 0x7fffffff := by omega
  calc
    g.cellCount ≤ 0x7fffffff * 0x7fffffff := Nat.mul_le_mul columns rows
    _ < UInt64.size := by decide

theorem cellCount?_eq (proper : g.Proper) (sized : g.Sized) :
    g.cellCount? = some g.cellCount := by
  obtain ⟨wide, high⟩ := proper
  rw [cellCount?, unsigned?_of_sized sized.1 (by omega), unsigned?_of_sized sized.2 (by omega)]
  exact longWord?_of_lt sized.cellCount_lt

/-- **A word holds the place of a cell,** and what the place is computed from. -/
theorem cellIndex?_eq (sized : g.Sized) (on : g.Contains c) :
    g.cellIndex? c = some (g.cellIndex c) := by
  have place : g.cellIndex c < UInt64.size := (cellIndex_lt on).trans sized.cellCount_lt
  -- the cells in the rows above are a part of the place
  have above : c.y.toNat * g.width.toNat < UInt64.size := (Nat.le_add_right ..).trans_lt place
  have cell := sized.cell on
  obtain ⟨⟨left, right⟩, top, -⟩ := on
  rw [cellIndex?, unsigned?_of_sized cell.2 top, unsigned?_of_sized sized.1 (by omega),
    unsigned?_of_sized cell.1 left]
  simp only [Option.bind_eq_bind, Option.bind_some, longWord?_of_lt above]
  exact longWord?_of_lt place

theorem rightEdge?_eq (sized : g.Sized) (on : g.Contains c) :
    g.rightEdge? c = some (g.rightEdge c) := by
  -- the column behind the last one is the width itself
  have column : Labyrinth.Sized (c.x + 1) := by
    obtain ⟨⟨-, upper⟩, -⟩ := sized
    obtain ⟨⟨left, right⟩, -⟩ := on
    exact ⟨by omega, by omega⟩
  rw [rightEdge?, rightEdge, signedWord?_of_sized column]
  simp only [Option.bind_eq_bind, Option.bind_some]
  split
  · next inside =>
    rw [Cell.neighbor?_of_sized (sized.cell (contains_right on inside))]
    rfl
  · rfl

theorem downEdge?_eq (sized : g.Sized) (on : g.Contains c) :
    g.downEdge? c = some (g.downEdge c) := by
  have row : Labyrinth.Sized (c.y + 1) := by
    obtain ⟨-, -, upper⟩ := sized
    obtain ⟨-, top, bottom⟩ := on
    exact ⟨by omega, by omega⟩
  rw [downEdge?, downEdge, signedWord?_of_sized row]
  simp only [Option.bind_eq_bind, Option.bind_some]
  split
  · next inside =>
    rw [Cell.neighbor?_of_sized (sized.cell (contains_down on inside))]
    rfl
  · rfl

theorem edgesOf?_eq (sized : g.Sized) (on : g.Contains c) :
    g.edgesOf? c = some (g.rightEdge c ++ g.downEdge c) := by
  rw [edgesOf?, rightEdge?_eq sized on, downEdge?_eq sized on]
  rfl

theorem flatMapM_edgesOf? (sized : g.Sized) {cells : List Cell} (on : ∀ c ∈ cells, g.Contains c) :
    cells.flatMapM g.edgesOf? = some (cells.flatMap fun c => g.rightEdge c ++ g.downEdge c) := by
  induction cells with
  | nil => rfl
  | cons c rest ih =>
    obtain ⟨first, later⟩ := List.forall_mem_cons.1 on
    rw [List.flatMapM_cons, edgesOf?_eq sized first, ih later]
    rfl

/-- **Words hold the coordinates of the edges.** -/
theorem edges?_eq (sized : g.Sized) : g.edges? = some g.edges :=
  flatMapM_edgesOf? sized fun _ => mem_cells.1

end Grid

namespace Carving

theorem initial?_eq (proper : g.Proper) (sized : g.Sized) : initial? g = some (initial g) := by
  rw [initial?, Grid.cellCount?_eq proper sized]
  rfl

/-- Carving an edge asks for places that words hold and the partition does not refuse. -/
theorem carve?_eq (sized : g.Sized) (mem : e ∈ g.edges) (bound : s.joined.bound = g.cellCount) :
    carve? g s e = some (carve g s e) := by
  obtain ⟨ha, hb, -⟩ := Grid.of_mem_edges mem
  obtain ⟨apart, joined, answer⟩ := Partition.exists_union_eq_ok
    (bound ▸ Grid.cellIndex_lt ha) (bound ▸ Grid.cellIndex_lt hb)
  rw [carve?, Grid.cellIndex?_eq sized ha, Grid.cellIndex?_eq sized hb, carve]
  simp only [Option.bind_eq_bind, Option.bind_some, answer]
  cases apart <;> rfl

/-- The bound of the partition carries the induction. -/
theorem foldlM_carve? (sized : g.Sized) (mem : ∀ e ∈ order, e ∈ g.edges)
    (bound : s.joined.bound = g.cellCount) :
    order.foldlM (carve? g) s = some (order.foldl (carve g) s) := by
  induction order generalizing s with
  | nil => rfl
  | cons e rest ih =>
    obtain ⟨first, later⟩ := List.forall_mem_cons.1 mem
    rw [List.foldlM_cons, carve?_eq sized first bound, List.foldl_cons]
    exact ih later ((bound_carve ..).trans bound)

theorem carveAll?_eq (proper : g.Proper) (sized : g.Sized) (mem : ∀ e ∈ order, e ∈ g.edges) :
    carveAll? g order = some (carveAll g order) := by
  rw [carveAll?, initial?_eq proper sized]
  exact foldlM_carve? sized mem (Partition.bound_discrete g.cellCount)

end Carving

/-- **Generating with its numbers checked goes like generating.** -/
theorem Maze.generate?_eq (sized : g.Sized) (words : Random.Words) :
    Maze.generate? g words = some (Maze.generate g words) := by
  rw [generate?, generate]
  split
  · next proper =>
    have mem : ∀ e ∈ (Random.shuffle words g.edges).1, e ∈ g.edges := fun e =>
      (Random.perm_shuffle words g.edges).mem_iff.1
    rw [Grid.edges?_eq sized]
    simp only [Option.bind_eq_bind, Option.bind_some, Carving.carveAll?_eq proper sized mem]
    rfl
  · rfl

/-- **The edges are the pairs of neighbours, and the places number the cells.** -/
theorem Grid.edges_and_places_exact (proper : g.Proper) :
    (∀ a b, (g.edges.map fun e => s(e.a, e.b)).count s(a, b) =
      if g.Contains a ∧ g.Contains b ∧ a.manhattan b = 1 then 1 else 0) ∧
    (∀ e ∈ g.edges, Wall.between? e.a e.b = some e.wall ∧ e.wall.Fits g ∧ ¬ e.wall.OnBoundary g) ∧
    (g.edges.length : Int) = 2 * g.width * g.height - g.width - g.height ∧
    Set.BijOn g.cellIndex {c | g.Contains c} {place | (place : Int) < g.width * g.height} ∧
    (∀ order : List Edge, order.Perm g.edges → ∀ k e, order[k]? = some e →
      let joined := (Carving.carveAll g (order.take k)).joined
      (g.cellIndex e.a < joined.bound ∧ g.cellIndex e.b < joined.bound) ∧
        ∃ apart, (joined.union (g.cellIndex e.a) (g.cellIndex e.b)).1 = .ok apart) ∧
    (g.Sized → g.cellCount? = some g.cellCount ∧
      (∀ c, g.Contains c → g.cellIndex? c = some (g.cellIndex c)) ∧ g.edges? = some g.edges ∧
      ∀ words, Maze.generate? g words = some (Maze.generate g words)) := by
  refine ⟨g.count_pairs_edges, fun e mem => ?_, length_edges proper, ?_, ?_, fun sized =>
    ⟨cellCount?_eq proper sized, fun c on => cellIndex?_eq sized on, edges?_eq sized,
      Maze.generate?_eq sized⟩⟩
  · obtain ⟨ha, hb, between⟩ := of_mem_edges mem
    exact ⟨between, inside_of_between? ha hb between⟩
  · rw [← proper.cellCount_eq]
    simpa only [Nat.cast_lt] using g.bijOn_cellIndex
  · intro order reordered k e found joined
    obtain ⟨ha, hb, -⟩ := of_mem_edges (reordered.mem_iff.1 (List.mem_of_getElem? found))
    have bound : joined.bound = g.cellCount := Carving.bound_carveAll g (order.take k)
    have inRange : g.cellIndex e.a < joined.bound := bound ▸ cellIndex_lt ha
    have inRange' : g.cellIndex e.b < joined.bound := bound ▸ cellIndex_lt hb
    obtain ⟨apart, after, answer⟩ := Partition.exists_union_eq_ok inRange inRange'
    exact ⟨⟨inRange, inRange'⟩, apart, congrArg Prod.fst answer⟩

/-- The last edge of the largest grid that words of 32 bits hold. -/
theorem Grid.edges_and_places_exact_largest :
    let g : Grid := ⟨0x7fffffff, 0x7fffffff⟩
    let e : Edge := ⟨⟨0x7ffffffd, 0x7ffffffe⟩, ⟨0x7ffffffe, 0x7ffffffe⟩,
      .vertical 0x7ffffffe 0x7ffffffe⟩
    g.Proper ∧ g.Sized ∧ g.Contains e.b ∧ e ∈ g.edges ∧
      (g.edges.map fun e => s(e.a, e.b)).count s(e.b, e.a) = 1 ∧
      (e.wall.Fits g ∧ ¬ e.wall.OnBoundary g) ∧ g.edges.length = 9223372023969873924 ∧
      g.cellIndex? e.b = some 4611686014132420608 ∧
      ∃ k, g.edges[k]? = some e ∧ ∃ apart,
        ((Carving.carveAll g (g.edges.take k)).joined.union (g.cellIndex e.a) (g.cellIndex e.b)).1 =
          .ok apart := by
  intro g e
  have proper : g.Proper := by decide
  have sized : g.Sized := by decide
  have on : g.Contains e.b := by decide
  have mem : e ∈ g.edges := right_mem_edges (by decide : g.Contains e.a) on
  obtain ⟨counts, walls, length, -, unions, words⟩ := edges_and_places_exact proper
  obtain ⟨-, indices, -, -⟩ := words sized
  obtain ⟨k, found⟩ := List.mem_iff_getElem?.1 mem
  have edges : (g.edges.length : Int) = 2 * 0x7fffffff * 0x7fffffff - 0x7fffffff - 0x7fffffff :=
    length
  have last : g.cellIndex e.b = 4611686014132420608 := by decide
  refine ⟨proper, sized, on, mem, ?_, (walls e mem).2, by omega, ?_, k, found, ?_⟩
  · rw [counts, if_pos (by decide)]
  · rw [indices e.b on, last]
  · exact (unions g.edges (.refl _) k e found).2

/-- Were the extent not held by words of 32 bits, the rows above a cell could have more cells than a
word holds. -/
example : (Grid.mk 0x200000000 0x200000000).cellIndex? ⟨0, 0x100000000⟩ = none := by decide

end Labyrinth
