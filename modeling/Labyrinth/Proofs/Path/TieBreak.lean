import Labyrinth.Path.Precedence
import Labyrinth.Proofs.Path.BreadthFirst

/-!
# Of several shortest paths the search finds the first

**Theorem (`shortestPath_first`).** The path found comes before every other shortest walk from start
to goal: where the two part, it goes on to the right rather than to the left, to the left rather
than down, and down rather than up.

**Invariant** (`Search.Orderly`). Cells are compared by their depth and, at the same depth, by the
first of the shortest walks that lead to them (`Maze.Ahead`). The queue is in this order, and what
no longer waits is ahead of what does. So the cell from which another is discovered is ahead of all
cells that could have been entered it from instead, and the first walk to the one goes on to the
first walk to the other (`Foremost.concat`).
-/

namespace Labyrinth

namespace Maze

variable {m : Maze} {a b c p : Cell} {walk other : List Cell}

/-- The walk is the first of the shortest walks from the start to a cell. -/
structure Foremost (m : Maze) (c : Cell) (walk : List Cell) : Prop where
  walks : m.WalksFrom m.start c walk
  short : walk.length = m.depth c + 1
  first : ∀ other, m.WalksFrom m.start c other → other.length = walk.length → other ≠ walk →
    Path.Precedes walk other

/-- The first cell lies nearer to the start than the second, or as near with a walk to it that
comes first. -/
def Ahead (m : Maze) (a b : Cell) : Prop :=
  m.depth a < m.depth b ∨
    m.depth a = m.depth b ∧ ∃ v w, m.Foremost a v ∧ m.Foremost b w ∧ Path.Precedes v w

theorem Ahead.depth_le (h : m.Ahead a b) : m.depth a ≤ m.depth b := by
  obtain nearer | ⟨same, -⟩ := h
  · exact nearer.le
  · exact same.le

theorem Ahead.exists_precedes (h : m.Ahead a b) (same : m.depth a = m.depth b) :
    ∃ v w, m.Foremost a v ∧ m.Foremost b w ∧ Path.Precedes v w := by
  obtain nearer | ⟨-, walks⟩ := h
  · omega
  · exact walks

/-! ## First walks -/

theorem Foremost.unique (h : m.Foremost c walk) (h' : m.Foremost c other) : other = walk := by
  by_contra different
  have same : other.length = walk.length := h'.short.trans h.short.symm
  have before := h.first other h'.walks same different
  have after := h'.first walk h.walks same.symm (Ne.symm different)
  exact Path.Precedes.irrefl walk (before.trans after)

theorem Foremost.start (m : Maze) : m.Foremost m.start [m.start] where
  walks := .refl
  short := by simp
  first other walks short different := by
    obtain ⟨c, rfl⟩ := List.length_eq_one_iff.1 short
    exact absurd (congrArg (fun c => [c]) (Option.some.inj walks.1)) different

/-- The first walk to a cell goes on to the first walk to the next one, if the next one cannot be
entered from a cell that is ahead of it. -/
theorem Foremost.concat (h : m.Foremost p walk) (passage : m.Open p c)
    (deeper : m.depth c = m.depth p + 1)
    (ahead : ∀ q, m.passages.Reachable m.start q → m.Open q c → m.depth q = m.depth p →
      q = p ∨ m.Ahead p q) : m.Foremost c (walk ++ [c]) where
  walks := h.walks.concat passage
  short := by rw [List.length_append, h.short, deeper, List.length_singleton]
  first other walks length different := by
    rw [List.length_append, h.short, List.length_singleton] at length
    obtain ⟨q, init, rfl, walksQ, last⟩ := walks.exists_concat (by omega)
    rw [List.length_append, List.length_singleton] at length
    have within : m.passages.Reachable m.start q := reaches_iff_reachable.1 ⟨init, walksQ⟩
    have notNearer := depth_le_of_open within last
    have notDeeper := walksQ.depth_lt_length
    -- the other walk comes to a cell as deep as `p`, so it can be compared with the walk to `p`
    have level : m.depth q = m.depth p := by omega
    refine Path.Precedes.append ?_ [c] [c]
    rcases ahead q within last level with rfl | before
    · refine h.first init walksQ (by rw [h.short]; omega) fun same => different ?_
      rw [same]
    · obtain ⟨v, w, foremostP, foremostQ, precedes⟩ := before.exists_precedes level.symm
      rw [h.unique foremostP] at precedes
      by_cases same : init = w
      · rwa [same]
      · exact precedes.trans
          (foremostQ.first init walksQ (by rw [foremostQ.short]; omega) same)

theorem pairwise_openNeighbors (m : Maze) (walks : m.WalksFrom a c walk) :
    (m.openNeighbors c).Pairwise fun n n' => Path.Precedes (walk ++ [n]) (walk ++ [n']) := by
  obtain ⟨init, rfl⟩ := List.getLast?_eq_some_iff.1 walks.2.1
  refine List.Pairwise.filter _ (List.pairwise_map.2 ?_)
  have ranks : neighborOrder.Pairwise fun h h' => h.rank < h'.rank := by decide
  exact ranks.imp fun lower => Path.precedes_concat_step init c lower

end Maze

namespace Search

variable {m : Maze} {s : Search} {c n : Cell} {waiting : List Cell}

/-- What holds between the steps of a search about the order in which cells are expanded. -/
structure Orderly (m : Maze) (s : Search) : Prop extends Sound m s where
  ordered : s.queue.Pairwise m.Ahead
  /-- A cell that no longer waits is ahead of all that do. -/
  expanded_ahead : ∀ a, s.HasReached a → a ∉ s.queue → ∀ b ∈ s.queue, m.Ahead a b
  /-- Cells are entered from cells that no longer wait. -/
  link_expanded : ∀ c p, (c, some p) ∈ s.reached → p ∉ s.queue
  /-- The first walk to a cell goes on to the first walk to the cells entered from it. -/
  link_foremost : ∀ c p walk, (c, some p) ∈ s.reached → m.Foremost p walk →
    m.Foremost c (walk ++ [c])

theorem Orderly.initial (m : Maze) : Orderly m (.initial m.start) where
  toSound := .initial m
  ordered := by simp [Search.initial]
  expanded_ahead a isStart notWaiting := by
    rw [hasReached_initial] at isStart
    exact absurd (List.mem_singleton.2 isStart) notWaiting
  link_expanded := by simp [Search.initial]
  link_foremost := by simp [Search.initial]

/-- The path to a cell is the first of the shortest walks that lead to it. -/
theorem Orderly.foremost_pathTo (h : Orderly m s) (reached : s.HasReached c) :
    m.Foremost c (s.pathTo c) :=
  h.pathTo_induction (.start m) h.link_foremost reached

theorem Orderly.ahead_discovered {a : Cell} (h : Orderly m s) (front : s.queue = c :: waiting)
    (waits : a ∈ waiting) (new : n ∈ s.discoveries m c)
    (foremost : ∀ walk, m.Foremost c walk → m.Foremost n (walk ++ [n])) : m.Ahead a n := by
  have frontWaits : c ∈ s.queue := front ▸ List.mem_cons_self
  have reachedA := h.queue_reached a (front ▸ List.mem_cons_of_mem c waits)
  have deeper := h.depth_of_discovered front new
  have within := h.span c frontWaits a reachedA
  by_cases nearer : m.depth a < m.depth n
  · exact .inl nearer
  · obtain ⟨_ | p, entry⟩ := hasReached_iff.1 reachedA
    · have atStart := h.origin a entry
      rw [atStart, Maze.depth_start] at nearer
      omega
    · -- both are one step deeper than the cells they were entered from, which are as deep
      obtain ⟨reachedP, -, step⟩ := h.link a p entry
      have before := h.expanded_ahead p reachedP (h.link_expanded a p entry) c frontWaits
      obtain ⟨v, w, foremostP, foremostC, precedes⟩ := before.exists_precedes (by omega)
      exact .inr ⟨by omega, v ++ [a], w ++ [n], h.link_foremost a p v entry foremostP,
        foremost w foremostC, precedes.append [a] [n]⟩

theorem Orderly.foremost_discovered (h : Orderly m s) (front : s.queue = c :: waiting)
    (new : n ∈ s.discoveries m c) {walk : List Cell} (foremost : m.Foremost c walk) :
    m.Foremost n (walk ++ [n]) := by
  obtain ⟨passage, fresh⟩ := mem_discoveries.1 new
  have ordered := h.ordered
  rw [front, List.pairwise_cons] at ordered
  refine foremost.concat passage (h.depth_of_discovered front new) fun q within last level => ?_
  have reachedQ := h.hasReached_of_depth_le front within level.le
  -- a cell that no longer waits has its neighbours reached, so `q` still waits
  have waits : q ∈ s.queue := by
    by_contra expanded
    exact fresh ((h.settled q reachedQ expanded).2 n last)
  rw [front, List.mem_cons] at waits
  exact waits.imp_right (ordered.1 q)

theorem Orderly.expand (h : Orderly m s) (front : s.queue = c :: waiting) (notGoal : c ≠ m.goal) :
    Orderly m (s.expand m c waiting) := by
  have ordered := h.ordered
  rw [front, List.pairwise_cons] at ordered
  have alone := h.queue_distinct
  rw [front, List.nodup_cons] at alone
  have frontWaits : c ∈ s.queue := front ▸ List.mem_cons_self
  have reachedC := h.hasReached_front front
  have queue : (s.expand m c waiting).queue = waiting ++ s.discoveries m c := rfl
  have deeper : ∀ n ∈ s.discoveries m c, m.depth n = m.depth c + 1 := fun n =>
    h.depth_of_discovered front
  have foremost : ∀ n ∈ s.discoveries m c, ∀ walk, m.Foremost c walk →
      m.Foremost n (walk ++ [n]) := fun n new walk => h.foremost_discovered front new
  -- a cell that did not wait behind the front is as deep as the front at most
  have notWaiting : ∀ a, s.HasReached a → a ∉ waiting → a = c ∨ a ∉ s.queue := by
    intro a _ gone
    rw [front, List.mem_cons, not_or]
    by_cases isFront : a = c
    · exact .inl isFront
    · exact .inr ⟨isFront, gone⟩
  constructor
  case toSound => exact h.toSound.expand front notGoal
  case ordered =>
    rw [queue]
    refine List.pairwise_append.2 ⟨ordered.2, ?_, fun a waits n new =>
      h.ahead_discovered front waits new (foremost n new)⟩
    have walk := h.foremost_pathTo reachedC
    have turns := (m.pairwise_openNeighbors walk.walks).filter (¬ s.HasReached ·)
    refine List.Pairwise.imp_of_mem (fun {a b} newA newB precedes => ?_) turns
    exact .inr ⟨by rw [deeper a newA, deeper b newB], _, _, foremost a newA _ walk,
      foremost b newB _ walk, precedes⟩
  case expanded_ahead =>
    intro a reachedA gone b waits
    rw [queue, List.mem_append, not_or] at gone
    rw [queue, List.mem_append] at waits
    have old : s.HasReached a := (hasReached_expand.1 reachedA).resolve_left gone.2
    rcases notWaiting a old gone.1 with rfl | expanded
    · rcases waits with waits | new
      · exact ordered.1 b waits
      · exact .inl (deeper b new ▸ Nat.lt_succ_self _)
    · rcases waits with waits | new
      · exact h.expanded_ahead a old expanded b (front ▸ List.mem_cons_of_mem c waits)
      · have notDeeper := (h.expanded_ahead a old expanded c frontWaits).depth_le
        exact .inl (deeper b new ▸ Nat.lt_succ_of_le notDeeper)
  case link_expanded =>
    intro a p entry
    rw [queue, List.mem_append, not_or]
    rcases mem_reached_expand.1 entry with ⟨-, ⟨⟩⟩ | old
    · exact ⟨alone.1, fun new => (mem_discoveries.1 new).2 reachedC⟩
    · refine ⟨fun waits => ?_, fun new => (mem_discoveries.1 new).2 (h.link a p old).1⟩
      exact h.link_expanded a p old (front ▸ List.mem_cons_of_mem c waits)
  case link_foremost =>
    intro a p walk entry
    rcases mem_reached_expand.1 entry with ⟨new, ⟨⟩⟩ | old
    · exact foremost a new walk
    · exact h.link_foremost a p walk old

end Search

namespace Maze

/-- **Of several shortest walks the search finds the first.** -/
theorem shortestPath_first (m : Maze) (reaches : m.Reaches m.start m.goal) :
    m.IsShortest m.shortestPath ∧
      ∀ walk, m.IsShortest walk → walk ≠ m.shortestPath → Path.Precedes m.shortestPath walk := by
  obtain ⟨path, found, -⟩ := search_of_reaches reaches
  have isPath : m.shortestPath = path := by rw [shortestPath, found, Search.Result.path]
  obtain ⟨s, waiting, orderly, due, rfl⟩ := Search.run_found
    (fun s c waiting h => Search.Orderly.expand h) (.initial m) found
  have foremost := orderly.foremost_pathTo (orderly.hasReached_front due)
  rw [isPath]
  have shortest : m.IsShortest (s.pathTo m.goal) := by
    refine ⟨foremost.walks, fun other walks => ?_⟩
    rw [foremost.short]
    exact walks.depth_lt_length
  refine ⟨shortest, ?_⟩
  intro walk isShortest
  obtain ⟨walks, short⟩ := isShortest
  exact foremost.first walk walks ((short _ shortest.1).antisymm (shortest.2 walk walks))

/-- A room with one wall in it and a way on either side of the wall. -/
theorem shortestPath_first_three_by_two :
    let m : Maze := .close ⟨3, 2⟩ .origin ⟨2, 1⟩ [.horizontal 1 1] (by decide) (by decide)
      (by decide) (by decide)
    let above : List Cell := [⟨0, 0⟩, ⟨1, 0⟩, ⟨2, 0⟩, ⟨2, 1⟩]
    let below : List Cell := [⟨0, 0⟩, ⟨0, 1⟩, ⟨1, 1⟩, ⟨2, 1⟩]
    m.Reaches m.start m.goal ∧ m.shortestPath = above ∧ m.IsShortest below ∧
      Path.Precedes above below := by
  intro m above below
  have walks : m.WalksFrom m.start m.goal below := by decide
  have reaches : m.Reaches m.start m.goal := ⟨below, walks⟩
  have found : m.shortestPath = above := by decide
  obtain ⟨⟨-, short⟩, first⟩ := m.shortestPath_first reaches
  rw [found] at short first
  exact ⟨reaches, found, ⟨walks, short⟩, first below ⟨walks, short⟩ (by decide)⟩

end Maze

end Labyrinth
