import Mathlib.Data.Sym.Sym2
import Labyrinth.Maze.Carving
import Labyrinth.Proofs.Maze.Cells

/-!
# The pairs of neighbours of a grid

A wall separates two cells, its *sides*, and is the wall between no other two (`sides_of_between?`).
The edges of a grid are the pairs of neighbours on it, each with the wall between them
(`of_mem_edges`, `exists_mem_edges`); that wall can exist on the grid and lies inside its outer edge
(`inside_of_between?`). Each pair is listed once (`nodup_edges`, `edge_eq_of_pair`), and each wall
inside the outer edge is that of one pair (`exists_mem_edges_of_inside`, `edge_eq_of_wall`).

Main statement: `Grid.related_of_edges`, an equivalence of cells that holds along the edges of a
grid holds between any two of its cells.
-/

namespace Labyrinth

variable {g : Grid} {a b : Cell} {w : Wall}

theorem Heading.step_turnLeft_turnLeft (c : Cell) (d : Heading) :
    c + d.step + d.turnLeft.turnLeft.step = c := by
  cases d <;> ext <;> simp only [Cell.add_x, Cell.add_y, step, turnLeft] <;> omega

/-! ## Sides -/

/-- The two cells that a wall separates; one of them may be off the grid. -/
def Wall.sides (w : Wall) : Sym2 Cell :=
  match w.orientation with
  | .horizontal => s(⟨w.x, w.y⟩, ⟨w.x, w.y⟩ + Heading.up.step)
  | .vertical => s(⟨w.x, w.y⟩, ⟨w.x, w.y⟩ + Heading.left.step)

/-- A wall is between its sides and no other cells. -/
theorem Wall.sides_of_between? (h : between? a b = some w) : w.sides = s(a, b) := by
  obtain ⟨d, rfl⟩ := exists_step_of_between? h
  rw [between?_step, Option.some_inj] at h
  subst h
  cases d
  case up => rfl
  case left => rfl
  case down =>
    have back : a + Heading.down.step + Heading.up.step = a :=
      Heading.step_turnLeft_turnLeft a .down
    show s(a + Heading.down.step, a + Heading.down.step + Heading.up.step) = _
    rw [back]
    exact Sym2.eq_swap
  case right =>
    have back : a + Heading.right.step + Heading.left.step = a :=
      Heading.step_turnLeft_turnLeft a .right
    show s(a + Heading.right.step, a + Heading.right.step + Heading.left.step) = _
    rw [back]
    exact Sym2.eq_swap

namespace Grid

/-- The wall between two cells of a grid can exist there, and is inside the outer edge. -/
theorem inside_of_between? (ha : g.Contains a) (hb : g.Contains b)
    (h : Wall.between? a b = some w) : w.Fits g ∧ ¬ w.OnBoundary g := by
  obtain ⟨d, rfl⟩ := Wall.exists_step_of_between? h
  rw [Wall.between?_step, Option.some_inj] at h
  subst h
  simp only [Contains] at ha hb
  cases d <;> simp only [Heading.step, Cell.add_x, Cell.add_y, Wall.above, Wall.leftOf,
    Wall.fits_horizontal, Wall.fits_vertical, Wall.onBoundary_horizontal,
    Wall.onBoundary_vertical] at hb ⊢ <;> omega

/-! ## Edges -/

theorem mem_rightEdge {e : Edge} {c : Cell} :
    e ∈ g.rightEdge c ↔ c.x + 1 < g.width ∧
      e = ⟨c, c + Heading.right.step, .leftOf (c + Heading.right.step)⟩ := by
  simp [rightEdge]

theorem mem_downEdge {e : Edge} {c : Cell} :
    e ∈ g.downEdge c ↔ c.y + 1 < g.height ∧
      e = ⟨c, c + Heading.down.step, .above (c + Heading.down.step)⟩ := by
  simp [downEdge]

theorem mem_edges {e : Edge} :
    e ∈ g.edges ↔ ∃ c, g.Contains c ∧ (e ∈ g.rightEdge c ∨ e ∈ g.downEdge c) := by
  simp [edges]

theorem contains_right (on : g.Contains a) (inside : a.x + 1 < g.width) :
    g.Contains (a + Heading.right.step) := by
  simp only [Contains, Heading.step, Cell.add_x, Cell.add_y] at on ⊢
  omega

theorem contains_down (on : g.Contains a) (inside : a.y + 1 < g.height) :
    g.Contains (a + Heading.down.step) := by
  simp only [Contains, Heading.step, Cell.add_x, Cell.add_y] at on ⊢
  omega

theorem of_mem_edges {e : Edge} (h : e ∈ g.edges) :
    g.Contains e.a ∧ g.Contains e.b ∧ Wall.between? e.a e.b = some e.wall := by
  obtain ⟨c, on, h | h⟩ := mem_edges.1 h
  · obtain ⟨inside, rfl⟩ := mem_rightEdge.1 h
    exact ⟨on, contains_right on inside, Wall.between?_step c .right⟩
  · obtain ⟨inside, rfl⟩ := mem_downEdge.1 h
    exact ⟨on, contains_down on inside, Wall.between?_step c .down⟩

theorem right_mem_edges (ha : g.Contains a) (hb : g.Contains (a + Heading.right.step)) :
    ⟨a, a + Heading.right.step, .leftOf (a + Heading.right.step)⟩ ∈ g.edges :=
  mem_edges.2 ⟨a, ha, .inl (mem_rightEdge.2 ⟨hb.1.2, rfl⟩)⟩

theorem down_mem_edges (ha : g.Contains a) (hb : g.Contains (a + Heading.down.step)) :
    ⟨a, a + Heading.down.step, .above (a + Heading.down.step)⟩ ∈ g.edges :=
  mem_edges.2 ⟨a, ha, .inr (mem_downEdge.2 ⟨hb.2.2, rfl⟩)⟩

theorem exists_mem_edges (ha : g.Contains a) (hb : g.Contains b)
    (h : Wall.between? a b = some w) : ∃ e ∈ g.edges, e.wall = w ∧ s(e.a, e.b) = s(a, b) := by
  obtain ⟨d, rfl⟩ := Wall.exists_step_of_between? h
  have back := Heading.step_turnLeft_turnLeft a d
  rw [Wall.between?_step, Option.some_inj] at h
  subst h
  cases d
  case right => exact ⟨_, right_mem_edges ha hb, rfl, rfl⟩
  case down => exact ⟨_, down_mem_edges ha hb, rfl, rfl⟩
  case left =>
    have back : a + Heading.left.step + Heading.right.step = a := back
    refine ⟨_, right_mem_edges hb (back.symm ▸ ha), ?_, ?_⟩ <;> rw [back]
    exact Sym2.eq_swap
  case up =>
    have back : a + Heading.up.step + Heading.down.step = a := back
    refine ⟨_, down_mem_edges hb (back.symm ▸ ha), ?_, ?_⟩ <;> rw [back]
    exact Sym2.eq_swap

/-! ## Each pair once -/

theorem step_of_mem_edges {e : Edge} (h : e ∈ g.edges) :
    e.b = e.a + Heading.right.step ∨ e.b = e.a + Heading.down.step := by
  obtain ⟨c, -, h | h⟩ := mem_edges.1 h
  · obtain ⟨-, rfl⟩ := mem_rightEdge.1 h
    exact .inl rfl
  · obtain ⟨-, rfl⟩ := mem_downEdge.1 h
    exact .inr rfl

theorem edge_eq_of_pair {e e' : Edge} (h : e ∈ g.edges) (h' : e' ∈ g.edges)
    (same : s(e.a, e.b) = s(e'.a, e'.b)) : e = e' := by
  have between := (of_mem_edges h).2.2
  have between' := (of_mem_edges h').2.2
  rcases Sym2.eq_iff.1 same with ⟨first, second⟩ | ⟨first, second⟩
  · have wall : e.wall = e'.wall := by
      rw [first, second, between'] at between
      exact (Option.some.inj between).symm
    cases e
    cases e'
    simp_all
  · -- no step leads up or to the left, so there is no way back
    exfalso
    have x := congrArg Cell.x first
    have y := congrArg Cell.y first
    have x' := congrArg Cell.x second
    have y' := congrArg Cell.y second
    rcases step_of_mem_edges h with step | step <;>
      rcases step_of_mem_edges h' with step' | step' <;>
      rw [step'] at x y <;> rw [step] at x' y' <;>
      simp only [Cell.add_x, Cell.add_y, Heading.step] at x y x' y' <;> omega

/-- A wall separates the cells of one edge only. -/
theorem edge_eq_of_wall {e e' : Edge} (h : e ∈ g.edges) (h' : e' ∈ g.edges)
    (same : e.wall = e'.wall) : e = e' := by
  apply edge_eq_of_pair h h'
  rw [← Wall.sides_of_between? (of_mem_edges h).2.2, ← Wall.sides_of_between? (of_mem_edges h').2.2,
    same]

/-- Every wall inside the outer edge separates the cells of an edge. -/
theorem exists_mem_edges_of_inside (fits : w.Fits g) (inside : ¬ w.OnBoundary g) :
    ∃ e ∈ g.edges, e.wall = w := by
  rcases w with ⟨_ | _, x, y⟩ <;> simp only [Wall.Fits, Wall.OnBoundary, not_or] at fits inside
  · have back : (⟨x, y - 1⟩ : Cell) + Heading.down.step = ⟨x, y⟩ := by
      ext <;> simp only [Cell.add_x, Cell.add_y, Heading.step] <;> omega
    have above : g.Contains ⟨x, y - 1⟩ := by
      simp only [Contains]
      omega
    have below : g.Contains ⟨x, y⟩ := by
      simp only [Contains]
      omega
    refine ⟨_, down_mem_edges above (back.symm ▸ below), ?_⟩
    rw [back]
    rfl
  · have back : (⟨x - 1, y⟩ : Cell) + Heading.right.step = ⟨x, y⟩ := by
      ext <;> simp only [Cell.add_x, Cell.add_y, Heading.step] <;> omega
    have before : g.Contains ⟨x - 1, y⟩ := by
      simp only [Contains]
      omega
    have behind : g.Contains ⟨x, y⟩ := by
      simp only [Contains]
      omega
    refine ⟨_, right_mem_edges before (back.symm ▸ behind), ?_⟩
    rw [back]
    rfl

theorem nodup_edges (g : Grid) : g.edges.Nodup := by
  refine List.nodup_flatMap.2 ⟨fun c _ => ?_, ?_⟩
  · refine List.nodup_append.2 ⟨?_, ?_, fun e right e' down same => ?_⟩
    · unfold rightEdge
      split <;> simp
    · unfold downEdge
      split <;> simp
    · obtain ⟨-, rfl⟩ := mem_rightEdge.1 right
      obtain ⟨-, rfl⟩ := mem_downEdge.1 down
      have x := congrArg (fun e => e.b.x) same
      simp only [Cell.add_x, Heading.step] at x
      omega
  · have source {c : Cell} {e : Edge} (h : e ∈ g.rightEdge c ++ g.downEdge c) : e.a = c := by
      rcases List.mem_append.1 h with h | h
      · obtain ⟨-, rfl⟩ := mem_rightEdge.1 h
        rfl
      · obtain ⟨-, rfl⟩ := mem_downEdge.1 h
        rfl
    exact g.nodup_cells.imp fun differ e h h' => differ ((source h).symm.trans (source h'))

/-! ## The grid is connected -/

section

variable {R : Cell → Cell → Prop}

theorem related_of_between? (equivalence : Equivalence R) (neighbors : ∀ e ∈ g.edges, R e.a e.b)
    (ha : g.Contains a) (hb : g.Contains b) (h : Wall.between? a b = some w) : R a b := by
  obtain ⟨e, mem, -, same⟩ := exists_mem_edges ha hb h
  rcases Sym2.eq_iff.1 same with ⟨rfl, rfl⟩ | ⟨rfl, rfl⟩
  · exact neighbors e mem
  · exact equivalence.symm (neighbors e mem)

theorem related_origin (equivalence : Equivalence R) (neighbors : ∀ e ∈ g.edges, R e.a e.b)
    (on : g.Contains a) : R Cell.origin a := by
  induction distance : a.x.toNat + a.y.toNat generalizing a with
  | zero =>
    have isOrigin : a = Cell.origin := by
      simp only [Contains] at on
      ext <;> simp only [Cell.origin] <;> omega
    rw [isOrigin]
    exact equivalence.refl _
  | succ n ih =>
    -- to the left as long as there is a column there, then up
    obtain ⟨d, on', nearer⟩ : ∃ d : Heading,
        g.Contains (a + d.step) ∧ (a + d.step).x.toNat + (a + d.step).y.toNat = n := by
      by_cases away : 0 < a.x
      · refine ⟨.left, ?_⟩
        simp only [Contains, Heading.step, Cell.add_x, Cell.add_y] at on ⊢
        omega
      · refine ⟨.up, ?_⟩
        simp only [Contains, Heading.step, Cell.add_x, Cell.add_y] at on ⊢
        omega
    have back := Wall.between?_symm (Wall.between?_step a d)
    exact equivalence.trans (ih on' nearer)
      (related_of_between? equivalence neighbors on' on back)

/-- An equivalence of cells that holds along the edges of a grid holds between all its cells. -/
theorem related_of_edges (equivalence : Equivalence R) (neighbors : ∀ e ∈ g.edges, R e.a e.b)
    (ha : g.Contains a) (hb : g.Contains b) : R a b :=
  equivalence.trans (equivalence.symm (related_origin equivalence neighbors ha))
    (related_origin equivalence neighbors hb)

end

end Grid

end Labyrinth
