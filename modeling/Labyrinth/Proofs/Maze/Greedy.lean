import Labyrinth.Proofs.Maze.Perfect

/-!
# Carving is greedy

**Theorem (`carving_is_greedy`).** Whatever the order of the edges, carving removes the wall of an
edge exactly if the edges before it do not join its two cells. So every spanning tree of the grid
(`Grid.SpanningTree`) is what some order leaves open, and every perfect maze comes out of some
order.

The edges kept so far join what all edges so far join (`Tracks.reachable_iff`), so the partition
answers for all of them. Once an edge has been gone through its wall is not touched again, because
each wall belongs to one edge and each edge is listed once (`mem_removed_carveAll`).

For a spanning tree the edges of the tree are put first (`Grid.treeFirst`): without an edge, the
rest of the tree does not join its cells, so all of them are kept; and when the other edges come,
the tree joins everything.
-/

namespace Labyrinth

open SimpleGraph

variable {g : Grid} {m : Maze} {a b : Cell} {e : Edge} {order before after kept : List Edge}
  {s : Carving} {w : Wall}

/-- The cells of a grid, each joined with its neighbours. -/
def Grid.neighbors (g : Grid) : SimpleGraph Cell where
  Adj a b := g.Contains a ∧ g.Contains b ∧ ∃ d : Heading, b = a + d.step
  symm := ⟨fun a b ⟨ha, hb, d, step⟩ =>
    ⟨hb, ha, d.turnLeft.turnLeft, by rw [step, Heading.step_turnLeft_turnLeft]⟩⟩
  loopless := ⟨fun a ⟨_, _, d, step⟩ => by
    have x := congrArg Cell.x step
    have y := congrArg Cell.y step
    cases d <;> simp only [Cell.add_x, Cell.add_y, Heading.step] at x y <;> omega⟩

/-- A graph joins neighbours of the grid only, has no cycle, and joins all the cells. -/
structure Grid.SpanningTree (g : Grid) (tree : SimpleGraph Cell) : Prop where
  le_neighbors : tree ≤ g.neighbors
  acyclic : tree.IsAcyclic
  connected : ∀ a b, g.Contains a → g.Contains b → tree.Reachable a b

/-! ## Edges and passages -/

theorem joins_mono {l l' : List Edge} (h : ∀ e ∈ l, e ∈ l') : joins l ≤ joins l' := by
  apply fromEdgeSet_mono
  rintro pair ⟨e, mem, rfl⟩
  exact ⟨e, h e mem, rfl⟩

theorem Grid.neighbors_adj_iff : g.neighbors.Adj a b ↔ ∃ e ∈ g.edges, s(e.a, e.b) = s(a, b) := by
  constructor
  · rintro ⟨ha, hb, d, rfl⟩
    obtain ⟨e, mem, -, pair⟩ := exists_mem_edges ha hb (Wall.between?_step a d)
    exact ⟨e, mem, pair⟩
  · rintro ⟨e, mem, pair⟩
    obtain ⟨ha, hb, between⟩ := of_mem_edges mem
    have adjacent : g.neighbors.Adj e.a e.b := ⟨ha, hb, Wall.exists_step_of_between? between⟩
    rw [← mem_edgeSet, pair, mem_edgeSet] at adjacent
    exact adjacent

theorem Maze.open_iff_exists_edge :
    m.Open a b ↔ ∃ e ∈ m.edges, e.wall ∉ m.walls ∧ s(e.a, e.b) = s(a, b) := by
  constructor
  · rintro ⟨ha, hb, w, between, free⟩
    obtain ⟨e, mem, rfl, pair⟩ := Grid.exists_mem_edges ha hb between
    exact ⟨e, mem, free, pair⟩
  · rintro ⟨e, mem, free, pair⟩
    obtain ⟨ha, hb, between⟩ := Grid.of_mem_edges mem
    have passage : m.passages.Adj e.a e.b := ⟨ha, hb, e.wall, between, free⟩
    rw [← mem_edgeSet, pair, mem_edgeSet] at passage
    exact passage

theorem Maze.open_edge_iff (mem : e ∈ m.edges) : m.Open e.a e.b ↔ e.wall ∉ m.walls := by
  rw [open_iff_exists_edge]
  constructor
  · rintro ⟨e', mem', free, pair⟩
    rwa [← Grid.edge_eq_of_pair mem' mem pair]
  · intro free
    exact ⟨e, mem, free, rfl⟩

theorem Maze.eq_of_passages {m m' : Maze} (grid : m.toGrid = m'.toGrid) (start : m.start = m'.start)
    (goal : m.goal = m'.goal) (passages : m.passages = m'.passages) : m = m' := by
  refine eq_of_mem_walls grid start goal fun w => ?_
  by_cases fits : w.Fits m.toGrid
  · by_cases edge : w.OnBoundary m.toGrid
    · have stands := m.boundary_mem w ((Grid.mem_boundaryWalls m.proper).2 ⟨fits, edge⟩)
      have stands' := m'.boundary_mem w
        ((Grid.mem_boundaryWalls m'.proper).2 ⟨grid ▸ fits, grid ▸ edge⟩)
      exact iff_of_true stands stands'
    · obtain ⟨e, mem, rfl⟩ := Grid.exists_mem_edges_of_inside fits edge
      have same : m.Open e.a e.b ↔ m'.Open e.a e.b := by
        rw [← passages_adj, passages, passages_adj]
      rw [open_edge_iff mem, open_edge_iff (grid ▸ mem)] at same
      exact not_iff_not.1 same
  · exact iff_of_false (fun h => fits (m.walls_fit w h))
      fun h => fits (grid ▸ m'.walls_fit w h)

namespace Carving

/-! ## The walls removed -/

theorem mem_removed_foldl (h : w ∈ s.removed) : w ∈ (order.foldl (carve g) s).removed := by
  induction order generalizing s with
  | nil => exact h
  | cons e rest ih =>
    apply ih
    rw [removed_carve]
    split
    · exact List.mem_cons_of_mem _ h
    · exact h

theorem of_mem_removed_foldl (h : w ∈ (order.foldl (carve g) s).removed) :
    w ∈ s.removed ∨ ∃ e ∈ order, e.wall = w := by
  induction order generalizing s with
  | nil => exact .inl h
  | cons e rest ih =>
    rcases ih h with old | ⟨e', later, same⟩
    · rw [removed_carve] at old
      split at old
      · rcases List.mem_cons.1 old with rfl | old
        · exact .inr ⟨e, List.mem_cons_self, rfl⟩
        · exact .inl old
      · exact .inl old
    · exact .inr ⟨e', List.mem_cons_of_mem e later, same⟩

/-- The edges that were kept join what all the edges join. -/
theorem Tracks.reachable_iff (tracks : Tracks g order.reverse kept (Carving.carveAll g order))
    (mem : ∀ e ∈ order, e ∈ g.edges) :
    (joins kept).Reachable a b ↔ (joins order).Reachable a b := by
  constructor
  · -- only walls of these edges were removed, so only these edges were kept
    have among : ∀ e ∈ kept, e ∈ order := by
      intro e keeps
      have gone : e.wall ∈ (Carving.carveAll g order).removed := by
        rw [tracks.removed]
        exact List.mem_map_of_mem keeps
      rcases of_mem_removed_foldl gone with none | ⟨e', listed, same⟩
      · cases none
      · rwa [← Grid.edge_eq_of_wall (mem e' listed) (tracks.kept_mem e keeps) same]
    exact fun h => h.mono (joins_mono among)
  · rintro ⟨walk⟩
    induction walk with
    | nil => exact .rfl
    | @cons a c b step _ ih =>
      obtain ⟨⟨e, listed, pair⟩, -⟩ := joins_adj.1 step
      have first := tracks.spanned e (List.mem_reverse.2 listed)
      rcases Sym2.eq_iff.1 pair with ⟨rfl, rfl⟩ | ⟨rfl, rfl⟩
      · exact first.trans ih
      · exact first.symm.trans ih

/-- **The wall of an edge is removed exactly if the edges before it do not join its cells.** -/
theorem mem_removed_carveAll (reordered : (before ++ e :: after).Perm g.edges) :
    e.wall ∈ (carveAll g (before ++ e :: after)).removed ↔
      ¬ (joins before).Reachable e.a e.b := by
  have mem : ∀ e' ∈ before ++ e :: after, e' ∈ g.edges := fun e' => reordered.mem_iff.1
  have memE : e ∈ g.edges := mem e (by simp)
  have memBefore : ∀ e' ∈ before, e' ∈ g.edges := fun e' h => mem e' (by simp [h])
  have distinct := reordered.nodup_iff.2 g.nodup_edges
  rw [List.nodup_middle, List.nodup_cons, List.mem_append, not_or] at distinct
  obtain ⟨⟨notBefore, notAfter⟩, -⟩ := distinct
  obtain ⟨kept, tracks⟩ := Tracks.carveAll memBefore
  obtain ⟨ha, hb, -⟩ := Grid.of_mem_edges memE
  have split : carveAll g (before ++ e :: after) =
      after.foldl (carve g) (carve g (carveAll g before) e) := List.foldl_append
  rw [split]
  -- the walls of other edges are other walls
  have stands : e.wall ∉ (carveAll g before).removed := by
    intro gone
    rcases of_mem_removed_foldl gone with none | ⟨e', listed, same⟩
    · cases none
    · exact notBefore (Grid.edge_eq_of_wall (memBefore e' listed) memE same ▸ listed)
  rw [← tracks.reachable_iff memBefore]
  rcases tracks.classes.union ha hb with ⟨answer, apart⟩ | ⟨answer, joined⟩
  · refine iff_of_true (mem_removed_foldl ?_) apart
    rw [removed_carve, if_pos answer]
    exact List.mem_cons_self
  · refine iff_of_false (fun gone => ?_) (not_not.2 joined)
    rcases of_mem_removed_foldl gone with now | ⟨e', listed, same⟩
    · rw [removed_carve, if_neg (by simp [answer])] at now
      exact stands now
    · have listed' : e' ∈ before ++ e :: after := by simp [listed]
      exact notAfter (Grid.edge_eq_of_wall (mem e' listed') memE same ▸ listed)

theorem exists_maze (proper : g.Proper) (reordered : order.Perm g.edges) :
    ∃ m, (carveAll g order).toMaze g = .ok m ∧ m.Perfect g ∧
      ∀ k e, order[k]? = some e →
        (e.wall ∉ m.walls ↔ ¬ (joins (order.take k)).Reachable e.a e.b) := by
  obtain ⟨m, built, perfect⟩ := toMaze_perfect proper reordered
  obtain ⟨m', built', -, -, -, walls⟩ := (carveAll g order).toMaze_of_proper proper
  obtain rfl : m' = m := Except.ok.inj (built'.symm.trans built)
  refine ⟨m', built, perfect, ?_⟩
  intro k e found
  have listed : e ∈ g.edges := reordered.mem_iff.1 (List.mem_of_getElem? found)
  obtain ⟨ha, hb, between⟩ := Grid.of_mem_edges listed
  obtain ⟨fits, inside⟩ := Grid.inside_of_between? ha hb between
  obtain ⟨bound, rfl⟩ := List.getElem?_eq_some_iff.1 found
  have split : order.take k ++ order[k] :: order.drop (k + 1) = order := by
    rw [← List.drop_eq_getElem_cons bound, List.take_append_drop]
  have removed := mem_removed_carveAll (split.symm ▸ reordered)
  rw [split] at removed
  rw [← removed, walls]
  simp [fits, inside]

end Carving

/-! ## Spanning trees -/

section

open Classical

/-- The edges of a grid that a graph joins. -/
noncomputable def Grid.edgesIn (g : Grid) (tree : SimpleGraph Cell) : List Edge :=
  g.edges.filter fun e => tree.Adj e.a e.b

/-- The edges of a grid, those that a graph joins first. -/
noncomputable def Grid.treeFirst (g : Grid) (tree : SimpleGraph Cell) : List Edge :=
  g.edgesIn tree ++ g.edges.filter fun e => ¬ tree.Adj e.a e.b

variable {tree : SimpleGraph Cell}

theorem Grid.mem_edgesIn : e ∈ g.edgesIn tree ↔ e ∈ g.edges ∧ tree.Adj e.a e.b := by
  simp [edgesIn]

theorem Grid.perm_treeFirst (g : Grid) (tree : SimpleGraph Cell) :
    (g.treeFirst tree).Perm g.edges := by
  have parts := List.filter_append_perm (fun e : Edge => decide (tree.Adj e.a e.b)) g.edges
  simpa [treeFirst, edgesIn] using parts

theorem Grid.joins_edgesIn (inside : tree ≤ g.neighbors) : joins (g.edgesIn tree) = tree := by
  ext a b
  rw [joins_adj]
  constructor
  · rintro ⟨⟨e, mem, pair⟩, -⟩
    have adjacent := (mem_edgesIn.1 mem).2
    rw [← mem_edgeSet, ← pair, mem_edgeSet] at adjacent
    exact adjacent
  · intro adjacent
    obtain ⟨e, mem, pair⟩ := neighbors_adj_iff.1 (inside adjacent)
    refine ⟨⟨e, mem_edgesIn.2 ⟨mem, ?_⟩, pair.symm⟩, adjacent.ne⟩
    rwa [← mem_edgeSet, pair, mem_edgeSet]

namespace Grid.SpanningTree

/-- The edges before an edge of the tree are other edges of the tree, and do not join its cells. -/
theorem exists_place_of_adj (h : g.SpanningTree tree) (mem : e ∈ g.edges)
    (adjacent : tree.Adj e.a e.b) :
    ∃ k, (g.treeFirst tree)[k]? = some e ∧
      ¬ (joins ((g.treeFirst tree).take k)).Reachable e.a e.b := by
  obtain ⟨before, after, split⟩ := List.append_of_mem (mem_edgesIn.2 ⟨mem, adjacent⟩)
  have distinct : (before ++ e :: after).Nodup := split ▸ g.nodup_edges.filter _
  rw [List.nodup_middle, List.nodup_cons, List.mem_append, not_or] at distinct
  have bridge : ¬ (tree.deleteEdges {s(e.a, e.b)}).Reachable e.a e.b :=
    isBridge_iff.1 (isAcyclic_iff_forall_adj_isBridge.1 h.acyclic adjacent)
  refine ⟨before.length, by simp [treeFirst, split], fun joined => bridge (joined.mono ?_)⟩
  rw [treeFirst, split, List.append_assoc, List.take_left]
  intro a b step
  obtain ⟨⟨e', listed, pair⟩, -⟩ := joins_adj.1 step
  obtain ⟨mem', adjacent'⟩ : e' ∈ g.edges ∧ tree.Adj e'.a e'.b :=
    mem_edgesIn.1 (by simp [split, listed])
  rw [← mem_edgeSet, ← pair, mem_edgeSet] at adjacent'
  refine deleteEdges_adj.2 ⟨adjacent', fun same => ?_⟩
  have again : e' = e := edge_eq_of_pair mem' mem (pair.symm.trans same)
  exact distinct.1.1 (again ▸ listed)

/-- All the edges of the tree come before an edge that is not among them, and join its cells. -/
theorem exists_place_of_not_adj (h : g.SpanningTree tree) (mem : e ∈ g.edges)
    (apart : ¬ tree.Adj e.a e.b) :
    ∃ k, (g.treeFirst tree)[k]? = some e ∧
      (joins ((g.treeFirst tree).take k)).Reachable e.a e.b := by
  have mem' : e ∈ g.edges.filter fun e => ¬ tree.Adj e.a e.b := by simp [mem, apart]
  obtain ⟨before, after, split⟩ := List.append_of_mem mem'
  obtain ⟨ha, hb, -⟩ := of_mem_edges mem
  have joined := h.connected e.a e.b ha hb
  refine ⟨(g.edgesIn tree ++ before).length, ?_, ?_⟩
  · rw [treeFirst, split, ← List.append_assoc]
    simp
  · rw [treeFirst, split, ← List.append_assoc, List.take_left]
    rw [← joins_edgesIn h.le_neighbors] at joined
    exact joined.mono (joins_mono fun e listed => List.mem_append_left before listed)

/-- **A spanning tree is what carving leaves open when its edges come first.** -/
theorem exists_carved (h : g.SpanningTree tree) (proper : g.Proper) :
    ∃ m, (Carving.carveAll g (g.treeFirst tree)).toMaze g = .ok m ∧ m.Perfect g ∧
      m.passages = tree := by
  obtain ⟨m, built, perfect, removed⟩ := Carving.exists_maze proper (g.perm_treeFirst tree)
  refine ⟨m, built, perfect, ?_⟩
  have missing : ∀ e ∈ g.edges, e.wall ∉ m.walls ↔ tree.Adj e.a e.b := by
    intro e mem
    by_cases adjacent : tree.Adj e.a e.b
    · obtain ⟨k, found, apart⟩ := h.exists_place_of_adj mem adjacent
      exact iff_of_true ((removed k e found).2 apart) adjacent
    · obtain ⟨k, found, joined⟩ := h.exists_place_of_not_adj mem adjacent
      exact iff_of_false (fun free => (removed k e found).1 free joined) adjacent
  have grid : m.edges = g.edges := by rw [perfect.grid_eq]
  have tree_eq := joins_edgesIn h.le_neighbors
  ext a b
  rw [Maze.passages_adj, Maze.open_iff_exists_edge, grid, ← tree_eq, joins_adj]
  constructor
  · rintro ⟨e, mem, free, pair⟩
    have adjacent := (missing e mem).1 free
    refine ⟨⟨e, mem_edgesIn.2 ⟨mem, adjacent⟩, pair.symm⟩, ?_⟩
    rw [← mem_edgeSet, pair, mem_edgeSet] at adjacent
    exact adjacent.ne
  · rintro ⟨⟨e, mem, pair⟩, -⟩
    obtain ⟨mem, adjacent⟩ := mem_edgesIn.1 mem
    exact ⟨e, mem, (missing e mem).2 adjacent, pair.symm⟩

end Grid.SpanningTree

end

theorem Maze.eq_nil_of_off {walk : m.passages.Walk a b} (off : ¬ m.Contains a) :
    walk.support = [a] := by
  cases walk with
  | nil => rfl
  | cons step _ => exact absurd step.1 off

theorem Maze.Perfect.spanningTree (h : m.Perfect g) : g.SpanningTree m.passages := by
  obtain rfl := h.grid_eq
  refine ⟨fun a b passage => ⟨passage.1, passage.2.1, Open.exists_step passage⟩, ?_,
    fun a b ha hb => ?_⟩
  · rw [isAcyclic_iff_subsingleton_path]
    refine fun a b => ⟨fun path path' => Subtype.ext (Walk.ext_support ?_)⟩
    by_cases ha : m.Contains a
    · have reached : m.Reaches a b := reaches_iff_reachable.2 ⟨path.1⟩
      obtain ⟨walk, -, single⟩ := h.unique_path a b ha (reached.contains ha)
      have first := single path.1.support ⟨walksFrom_support path.1, path.2.support_nodup⟩
      have second := single path'.1.support ⟨walksFrom_support path'.1, path'.2.support_nodup⟩
      exact first.trans second.symm
    · rw [eq_nil_of_off ha, eq_nil_of_off ha]
  · obtain ⟨walk, ⟨walks, -⟩, -⟩ := h.unique_path a b ha hb
    exact reaches_iff_reachable.1 ⟨walk, walks⟩

/-- **Carving is greedy, and leaves no spanning tree out.** -/
theorem Maze.carving_is_greedy (proper : g.Proper) :
    (∀ order : List Edge, order.Perm g.edges →
      ∃ m, (Carving.carveAll g order).toMaze g = .ok m ∧ ∀ k e, order[k]? = some e →
        (e.wall ∉ m.walls ↔ ¬ (joins (order.take k)).Reachable e.a e.b)) ∧
    (∀ words : Random.Words, ∃ r, Maze.generate g words = .ok r ∧
      ∀ k e, (Random.shuffle words g.edges).1[k]? = some e →
        (e.wall ∉ r.maze.walls ↔
          ¬ (joins ((Random.shuffle words g.edges).1.take k)).Reachable e.a e.b)) ∧
    (∀ tree, g.SpanningTree tree → ∃ order : List Edge, order.Perm g.edges ∧
      ∃ m, (Carving.carveAll g order).toMaze g = .ok m ∧ m.passages = tree) ∧
    ∀ m : Maze, m.Perfect g → ∃ order : List Edge, order.Perm g.edges ∧
      (Carving.carveAll g order).toMaze g = .ok m := by
  refine ⟨fun order reordered => ?_, fun words => ?_, fun tree spans => ?_, fun m perfect => ?_⟩
  · obtain ⟨m, built, -, removed⟩ := Carving.exists_maze proper reordered
    exact ⟨m, built, removed⟩
  · obtain ⟨m, built, -, removed⟩ :=
      Carving.exists_maze proper (Random.perm_shuffle words g.edges)
    rw [generate_of_proper proper, built]
    exact ⟨_, rfl, removed⟩
  · obtain ⟨m, built, -, passages⟩ := spans.exists_carved proper
    exact ⟨g.treeFirst tree, g.perm_treeFirst tree, m, built, passages⟩
  · obtain ⟨m', built, perfect', passages⟩ := perfect.spanningTree.exists_carved proper
    have grid := perfect'.grid_eq.trans perfect.grid_eq.symm
    have start := perfect'.start_eq.trans perfect.start_eq.symm
    have goal := perfect'.goal_eq.trans perfect.goal_eq.symm
    obtain rfl := Maze.eq_of_passages grid start goal passages
    exact ⟨_, g.perm_treeFirst _, built⟩

/-- In a square of four cells the first three edges join all of them, and the wall of the fourth is
left standing. -/
theorem Maze.carving_is_greedy_two_by_two :
    let g : Grid := ⟨2, 2⟩
    g.Proper ∧ ∃ m, (Carving.carveAll g g.edges).toMaze g = .ok m ∧
      Wall.vertical 1 0 ∉ m.walls ∧ Wall.vertical 1 1 ∈ m.walls ∧
      m.Perfect g ∧ (∃ order : List Edge, order.Perm g.edges ∧
        (Carving.carveAll g order).toMaze g = .ok m) ∧
      g.SpanningTree m.passages ∧ ∃ order : List Edge, order.Perm g.edges ∧
        ∃ m', (Carving.carveAll g order).toMaze g = .ok m' ∧ m'.passages = m.passages := by
  intro g
  have proper : g.Proper := by decide
  obtain ⟨ordered, -, spanning, perfect⟩ := Maze.carving_is_greedy proper
  obtain ⟨m, built, removed⟩ := ordered g.edges (.refl _)
  obtain ⟨m', built', isPerfect⟩ := Carving.toMaze_perfect proper (.refl g.edges)
  obtain rfl : m' = m := Except.ok.inj (built'.symm.trans built)
  refine ⟨proper, m', built, ?_, ?_, isPerfect, perfect m' isPerfect, isPerfect.spanningTree,
    spanning m'.passages isPerfect.spanningTree⟩
  · refine (removed 0 ⟨⟨0, 0⟩, ⟨1, 0⟩, .vertical 1 0⟩ (by decide)).2 fun joined => ?_
    rw [List.take_zero, joins_nil, reachable_bot] at joined
    cases joined
  · have up : (joins (g.edges.take 3)).Adj ⟨0, 1⟩ ⟨0, 0⟩ := joins_adj.2 (by decide)
    have across : (joins (g.edges.take 3)).Adj ⟨0, 0⟩ ⟨1, 0⟩ := joins_adj.2 (by decide)
    have down : (joins (g.edges.take 3)).Adj ⟨1, 0⟩ ⟨1, 1⟩ := joins_adj.2 (by decide)
    have joined := (up.reachable.trans across.reachable).trans down.reachable
    by_contra gone
    exact (removed 3 ⟨⟨0, 1⟩, ⟨1, 1⟩, .vertical 1 1⟩ (by decide)).1 gone joined

end Labyrinth
