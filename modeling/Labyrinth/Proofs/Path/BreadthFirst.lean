import Mathlib.Data.Set.Card
import Labyrinth.Path.Search
import Labyrinth.Proofs.Maze.Cells
import Labyrinth.Proofs.Path.Passages

/-!
# The search finds a shortest path

**Theorem (`shortestPath_correct`).** The path found is a walk from start to goal, and no walk
between them has fewer cells. No path is found exactly when there is no walk, and then the number
logged is the number of cells within reach of the start.

**Invariant** (`Search.Sound`). The cells reached are linked back to the start by passages that
each lead one step nearer (`Search.Linked`). The queue is ordered by depth, and no cell reached lies
more than one step deeper than any that waits. A cell that was reached and no longer waits has all
its neighbours reached. So every cell within reach that is no deeper than the front of the queue has
been reached (`Sound.hasReached_of_depth_le`), and a cell discovered from the front lies exactly one
step deeper (`Sound.depth_of_discovered`): that is what carries the invariant over a step
(`Sound.expand`).

**Counting** (`Search.Enough`). Each step expands one more cell, and no more cells are reached than
the grid has, so the steps allowed are never used up.
-/

namespace Labyrinth

namespace Search

variable {m : Maze} {s : Search} {c n : Cell} {waiting : List Cell}

/-- The cells reached form a tree of passages below the start. -/
structure Linked (m : Maze) (s : Search) : Prop where
  /-- Every cell is reached once. -/
  distinct : (s.reached.map Prod.fst).Nodup
  start_mem : (m.start, none) ∈ s.reached
  /-- Only the start comes from nowhere. -/
  origin : ∀ c, (c, none) ∈ s.reached → c = m.start
  /-- Every other cell was entered from a reached one that lies one step nearer. -/
  link : ∀ c p, (c, some p) ∈ s.reached →
    s.HasReached p ∧ m.Open p c ∧ m.depth c = m.depth p + 1
  reachable : ∀ c, s.HasReached c → m.passages.Reachable m.start c
  /-- The steps to a cell are fewer than the cells reached. -/
  shallow : ∀ c, s.HasReached c → m.depth c < s.visited

/-- What holds between the steps of a search. -/
structure Sound (m : Maze) (s : Search) : Prop extends Linked m s where
  queue_distinct : s.queue.Nodup
  queue_reached : ∀ c ∈ s.queue, s.HasReached c
  /-- A cell that no longer waits is not the goal and has all its neighbours reached. -/
  settled : ∀ c, s.HasReached c → c ∉ s.queue → c ≠ m.goal ∧ ∀ n, m.Open c n → s.HasReached n
  levels : s.queue.Pairwise (m.depth · ≤ m.depth ·)
  /-- The cells reached lie at most one step deeper than any that waits. -/
  span : ∀ a ∈ s.queue, ∀ c, s.HasReached c → m.depth c ≤ m.depth a + 1

theorem hasReached_iff : s.HasReached c ↔ ∃ o, (c, o) ∈ s.reached := by
  simp [HasReached]

theorem hasReached_initial {start : Cell} : (initial start).HasReached c ↔ c = start := by
  simp [HasReached, initial]

theorem Linked.initial (m : Maze) : Linked m (.initial m.start) where
  distinct := by simp [Search.initial]
  start_mem := by simp [Search.initial]
  origin := by simp [Search.initial]
  link := by simp [Search.initial]
  reachable c isStart := by
    rw [hasReached_initial] at isStart
    rw [isStart]
  shallow c isStart := by
    rw [hasReached_initial] at isStart
    simp [isStart, Search.initial, visited]

theorem Sound.initial (m : Maze) : Sound m (.initial m.start) where
  toLinked := .initial m
  queue_distinct := by simp [Search.initial]
  queue_reached c waits := hasReached_initial.2 (List.mem_singleton.1 waits)
  settled c isStart notWaiting := by
    rw [hasReached_initial] at isStart
    exact absurd (List.mem_singleton.2 isStart) notWaiting
  levels := by simp [Search.initial]
  span a _ c isStart := by
    rw [hasReached_initial] at isStart
    simp [isStart]

theorem Linked.hasReached_start (h : Linked m s) : s.HasReached m.start :=
  hasReached_iff.2 ⟨none, h.start_mem⟩

/-! ## One step -/

theorem mem_discoveries : n ∈ s.discoveries m c ↔ m.Open c n ∧ ¬ s.HasReached n := by
  simp [discoveries]

theorem nodup_discoveries : (s.discoveries m c).Nodup := (m.nodup_openNeighbors c).filter _

theorem mem_reached_expand {o : Option Cell} :
    (n, o) ∈ (s.expand m c waiting).reached ↔
      (n ∈ s.discoveries m c ∧ o = some c) ∨ (n, o) ∈ s.reached := by
  simp only [expand, List.mem_append, List.mem_map, Prod.mk.injEq]
  refine or_congr_left ⟨?_, ?_⟩
  · rintro ⟨a, new, rfl, rfl⟩
    exact ⟨new, rfl⟩
  · rintro ⟨new, rfl⟩
    exact ⟨n, new, rfl, rfl⟩

theorem hasReached_expand :
    (s.expand m c waiting).HasReached n ↔ n ∈ s.discoveries m c ∨ s.HasReached n := by
  simp only [hasReached_iff, mem_reached_expand, exists_or, exists_and_left, exists_eq, and_true]

theorem visited_expand :
    (s.expand m c waiting).visited = (s.discoveries m c).length + s.visited := by
  simp [expand, visited]

/-- If the cells reached above some depth have all their neighbours reached, then every cell within
reach down to that depth has been reached. -/
theorem Linked.hasReached_of_closed (h : Linked m s) {d : Nat}
    (closed : ∀ p, s.HasReached p → m.depth p < d → ∀ n, m.Open p n → s.HasReached n)
    (within : m.passages.Reachable m.start c) (near : m.depth c ≤ d) : s.HasReached c := by
  induction depth : m.depth c generalizing c with
  | zero =>
    rcases Maze.eq_start_or_exists_nearer within with rfl | ⟨p, -, -, deeper⟩
    · exact h.hasReached_start
    · omega
  | succ k ih =>
    rcases Maze.eq_start_or_exists_nearer within with rfl | ⟨p, withinP, passage, deeper⟩
    · exact h.hasReached_start
    · have reachedP : s.HasReached p := ih withinP (by omega) (by omega)
      exact closed p reachedP (by omega) c passage

/-- Every cell within reach and no deeper than the front of the queue has been reached. -/
theorem Sound.hasReached_of_depth_le (h : Sound m s) (front : s.queue = c :: waiting)
    (within : m.passages.Reachable m.start n) (near : m.depth n ≤ m.depth c) :
    s.HasReached n := by
  refine h.hasReached_of_closed (fun p reachedP nearer => ?_) within near
  have ordered := h.levels
  rw [front, List.pairwise_cons] at ordered
  -- everything that waits is at least as deep as the front, so `p` has been expanded
  have expanded : p ∉ s.queue := by
    rw [front, List.mem_cons]
    rintro (rfl | later)
    · exact absurd nearer (Nat.lt_irrefl _)
    · exact absurd nearer (Nat.not_lt.2 (ordered.1 p later))
  exact (h.settled p reachedP expanded).2

theorem Sound.hasReached_front (h : Sound m s) (front : s.queue = c :: waiting) :
    s.HasReached c := h.queue_reached c (front ▸ List.mem_cons_self)

theorem Sound.depth_of_discovered (h : Sound m s) (front : s.queue = c :: waiting)
    (new : n ∈ s.discoveries m c) : m.depth n = m.depth c + 1 := by
  obtain ⟨passage, fresh⟩ := mem_discoveries.1 new
  have within := h.reachable c (h.hasReached_front front)
  have notDeeper := Maze.depth_le_of_open within passage
  have withinN : m.passages.Reachable m.start n :=
    within.trans (SimpleGraph.Adj.reachable (Maze.passages_adj.2 passage))
  have deeper : ¬ m.depth n ≤ m.depth c := fun near =>
    fresh (h.hasReached_of_depth_le front withinN near)
  omega

theorem Linked.expand (h : Linked m s) (reachedC : s.HasReached c)
    (deeper : ∀ n ∈ s.discoveries m c, m.depth n = m.depth c + 1) :
    Linked m (s.expand m c waiting) where
  distinct := by
    simp only [Search.expand, List.map_append, List.map_map, Function.comp_def, List.map_id']
    refine List.nodup_append.2 ⟨nodup_discoveries, h.distinct, ?_⟩
    rintro a new b old rfl
    exact (mem_discoveries.1 new).2 old
  start_mem := mem_reached_expand.2 (.inr h.start_mem)
  origin a ha := by
    rcases mem_reached_expand.1 ha with ⟨-, ⟨⟩⟩ | old
    exact h.origin a old
  link a p ha := by
    rcases mem_reached_expand.1 ha with ⟨new, ⟨⟩⟩ | old
    · exact ⟨hasReached_expand.2 (.inr reachedC), (mem_discoveries.1 new).1, deeper a new⟩
    · obtain ⟨reachedP, passage, step⟩ := h.link a p old
      exact ⟨hasReached_expand.2 (.inr reachedP), passage, step⟩
  reachable a ha := by
    rcases hasReached_expand.1 ha with new | old
    · have passage := (mem_discoveries.1 new).1
      exact (h.reachable c reachedC).trans (SimpleGraph.Adj.reachable passage)
    · exact h.reachable a old
  shallow a ha := by
    rw [visited_expand]
    rcases hasReached_expand.1 ha with new | old
    · have := deeper a new
      have := h.shallow c reachedC
      -- as many more are visited as there are discoveries, and one of them is `a`
      have := List.length_pos_of_mem new
      omega
    · have := h.shallow a old
      omega

theorem Sound.expand (h : Sound m s) (front : s.queue = c :: waiting) (notGoal : c ≠ m.goal) :
    Sound m (s.expand m c waiting) := by
  have deeper : ∀ n ∈ s.discoveries m c, m.depth n = m.depth c + 1 := fun n =>
    h.depth_of_discovered front
  have ordered := h.levels
  rw [front, List.pairwise_cons] at ordered
  have alone := h.queue_distinct
  rw [front, List.nodup_cons] at alone
  have frontWaits : c ∈ s.queue := front ▸ List.mem_cons_self
  have waits : ∀ a ∈ waiting, a ∈ s.queue := fun a ha => front ▸ List.mem_cons_of_mem c ha
  have queue : (s.expand m c waiting).queue = waiting ++ s.discoveries m c := rfl
  constructor
  case toLinked => exact h.toLinked.expand (h.hasReached_front front) deeper
  case queue_distinct =>
    rw [queue]
    refine List.nodup_append.2 ⟨alone.2, nodup_discoveries, ?_⟩
    rintro a old b new rfl
    exact (mem_discoveries.1 new).2 (h.queue_reached a (waits a old))
  case queue_reached =>
    intro a ha
    rw [queue, List.mem_append] at ha
    exact hasReached_expand.2 (ha.symm.imp id fun old => h.queue_reached a (waits a old))
  case settled =>
    intro a ha gone
    rw [queue, List.mem_append, not_or] at gone
    have old : s.HasReached a := (hasReached_expand.1 ha).resolve_left gone.2
    -- the front has been expanded by this very step, any other cell before it
    by_cases isFront : a = c
    · subst isFront
      refine ⟨notGoal, fun n passage => hasReached_expand.2 ?_⟩
      by_cases known : s.HasReached n
      · exact .inr known
      · exact .inl (mem_discoveries.2 ⟨passage, known⟩)
    · have expanded : a ∉ s.queue := by
        rw [front, List.mem_cons, not_or]
        exact ⟨isFront, gone.1⟩
      obtain ⟨notGoal, closed⟩ := h.settled a old expanded
      exact ⟨notGoal, fun n passage => hasReached_expand.2 (.inr (closed n passage))⟩
  case levels =>
    rw [queue]
    refine List.pairwise_append.2 ⟨ordered.2, ?_, fun a old b new => ?_⟩
    · refine List.Pairwise.imp_of_mem (fun {a b} ha hb _ => ?_) nodup_discoveries
      rw [deeper a ha, deeper b hb]
    · rw [deeper b new]
      exact h.span c frontWaits a (h.queue_reached a (waits a old))
  case span =>
    intro a ha b hb
    rw [queue, List.mem_append] at ha
    -- whatever waits now is as deep as the front was, and nothing lies two steps deeper than that
    have notNearer : m.depth c ≤ m.depth a := by
      rcases ha with old | new
      · exact ordered.1 a old
      · rw [deeper a new]
        exact Nat.le_succ _
    have inReach : m.depth b ≤ m.depth c + 1 := by
      rcases hasReached_expand.1 hb with new | old
      · exact (deeper b new).le
      · exact h.span c frontWaits b old
    omega

/-! ## Going back -/

theorem Linked.predecessor?_eq (h : Linked m s) {o : Option Cell} (entry : (c, o) ∈ s.reached) :
    s.predecessor? c = o := by
  obtain ⟨later, earlier, split⟩ := List.append_of_mem entry
  have distinct := h.distinct
  rw [split, List.map_append, List.map_cons, List.nodup_middle, List.nodup_cons] at distinct
  have found : s.reached.lookup c = some o := by
    refine List.lookup_eq_some_iff.2 ⟨later, earlier, split, fun entry' inLater => bne_iff_ne.2 ?_⟩
    rintro rfl
    exact distinct.1 (List.mem_append_left _ (List.mem_map.2 ⟨entry', inLater, rfl⟩))
  rw [predecessor?, found, Option.join_some]

/-- What the start has and each passage recorded hands on, the way back from a cell has. -/
theorem Linked.walkBack_induction (h : Linked m s) {P : Cell → List Cell → Prop}
    (start : P m.start [m.start])
    (link : ∀ c p walk, (c, some p) ∈ s.reached → P p walk → P c (walk ++ [c])) {fuel : Nat}
    (reached : s.HasReached c) (enough : m.depth c ≤ fuel) (after : List Cell) :
    ∃ walk, s.walkBack fuel c after = walk ++ after ∧ P c walk := by
  induction fuel generalizing c after with
  | zero =>
    obtain ⟨_ | p, entry⟩ := hasReached_iff.1 reached
    · obtain rfl := h.origin c entry
      exact ⟨[m.start], rfl, start⟩
    · have := (h.link c p entry).2.2
      omega
  | succ fuel ih =>
    obtain ⟨_ | p, entry⟩ := hasReached_iff.1 reached
    · obtain rfl := h.origin c entry
      rw [walkBack, h.predecessor?_eq entry]
      exact ⟨[m.start], rfl, start⟩
    · obtain ⟨reachedP, -, deeper⟩ := h.link c p entry
      obtain ⟨walk, same, has⟩ := ih reachedP (by omega) (c :: after)
      rw [walkBack, h.predecessor?_eq entry]
      exact ⟨walk ++ [c], by simp [same], link c p walk entry has⟩

theorem Linked.pathTo_induction (h : Linked m s) {P : Cell → List Cell → Prop}
    (start : P m.start [m.start])
    (link : ∀ c p walk, (c, some p) ∈ s.reached → P p walk → P c (walk ++ [c]))
    (reached : s.HasReached c) : P c (s.pathTo c) := by
  obtain ⟨walk, same, has⟩ := h.walkBack_induction start link reached (h.shallow c reached).le []
  rw [List.append_nil] at same
  rwa [pathTo, same]

/-- The path to a cell is a walk from the start in as few steps as there can be. -/
theorem Linked.pathTo_spec (h : Linked m s) (reached : s.HasReached c) :
    m.WalksFrom m.start c (s.pathTo c) ∧ (s.pathTo c).length = m.depth c + 1 := by
  refine h.pathTo_induction (P := fun c walk =>
    m.WalksFrom m.start c walk ∧ walk.length = m.depth c + 1) ⟨.refl, by simp⟩ ?_ reached
  rintro c p walk entry ⟨walks, short⟩
  obtain ⟨-, passage, deeper⟩ := h.link c p entry
  exact ⟨walks.concat passage, by simp [short, deeper]⟩

/-! ## The run -/

/-- More steps are allowed than there are cells still to be expanded. -/
def Enough (m : Maze) (fuel : Nat) (s : Search) : Prop :=
  m.cellCount + s.queue.length < fuel + s.visited

theorem Enough.expand {fuel : Nat} (h : Enough m (fuel + 1) s) (front : s.queue = c :: waiting) :
    Enough m fuel (s.expand m c waiting) := by
  unfold Enough at *
  rw [visited_expand]
  simp only [front, Search.expand, List.length_append, List.length_cons] at *
  omega

theorem Linked.contains (h : Linked m s) (reached : s.HasReached c) : m.Contains c :=
  (Maze.reaches_iff_reachable.2 (h.reachable c reached)).contains m.start_mem

theorem Linked.visited_le (h : Linked m s) : s.visited ≤ m.cellCount := by
  have bound := Grid.length_le_cellCount h.distinct fun c => h.contains
  rwa [List.length_map] at bound

/-- When nothing waits any more, exactly the cells within reach have been reached. -/
theorem Sound.hasReached_iff_reaches (h : Sound m s) (done : s.queue = []) :
    s.HasReached c ↔ m.Reaches m.start c := by
  rw [Maze.reaches_iff_reachable]
  constructor
  · exact h.reachable c
  · intro within
    have closed : ∀ p, s.HasReached p → m.depth p < m.depth c → ∀ n, m.Open p n →
        s.HasReached n := fun p reachedP _ => by
      refine (h.settled p reachedP ?_).2
      rw [done]
      exact List.not_mem_nil
    exact h.hasReached_of_closed closed within (Nat.le_refl _)

theorem Sound.visited_eq (h : Sound m s) (done : s.queue = []) :
    s.visited = {c | m.Reaches m.start c}.ncard := by
  have same : {c | m.Reaches m.start c} = ((s.reached.map Prod.fst).toFinset : Set Cell) := by
    ext c
    rw [List.coe_toFinset]
    exact (h.hasReached_iff_reaches done).symm
  rw [same, Set.ncard_coe_finset, List.toFinset_card_of_nodup h.distinct, List.length_map, visited]

theorem Sound.not_reaches_goal (h : Sound m s) (done : s.queue = []) :
    ¬ m.Reaches m.start m.goal := by
  rw [← h.hasReached_iff_reaches done]
  intro reached
  refine (h.settled m.goal reached ?_).1 rfl
  rw [done]
  exact List.not_mem_nil

/-- A search comes to a walk in as few steps as there can be, or finds that there is none. -/
theorem Sound.run_spec {fuel : Nat} (h : Sound m s) (enough : Enough m fuel s) :
    (∃ path, run m fuel s = .found path ∧ m.WalksFrom m.start m.goal path ∧
      path.length = m.depth m.goal + 1) ∨
    (¬ m.Reaches m.start m.goal ∧
      run m fuel s = .unreachable {c | m.Reaches m.start c}.ncard) := by
  induction fuel generalizing s with
  | zero =>
    have := h.visited_le
    unfold Enough at enough
    omega
  | succ fuel ih =>
    rw [run]
    cases front : s.queue with
    | nil => exact .inr ⟨h.not_reaches_goal front, by rw [h.visited_eq front]⟩
    | cons c waiting =>
      by_cases isGoal : c = m.goal
      · subst isGoal
        have ⟨walks, short⟩ := h.pathTo_spec (h.hasReached_front front)
        exact .inl ⟨_, if_pos rfl, walks, short⟩
      · simp only [isGoal, if_false]
        exact ih (h.expand front isGoal) (enough.expand front)

/-- A path that is found is the path to the goal in a state in which the goal is due. Whatever each
expansion keeps holds there. -/
theorem run_found {I : Search → Prop} {path : List Cell}
    (keeps : ∀ s c waiting, I s → s.queue = c :: waiting → c ≠ m.goal → I (s.expand m c waiting))
    {fuel : Nat} (h : I s) (found : run m fuel s = .found path) :
    ∃ s waiting, I s ∧ s.queue = m.goal :: waiting ∧ s.pathTo m.goal = path := by
  induction fuel generalizing s with
  | zero => cases found
  | succ fuel ih =>
    rw [run] at found
    cases front : s.queue with
    | nil => simp [front] at found
    | cons c waiting =>
      simp only [front] at found
      by_cases isGoal : c = m.goal
      · subst isGoal
        rw [if_pos rfl, Result.found.injEq] at found
        exact ⟨s, waiting, h, front, found⟩
      · rw [if_neg isGoal] at found
        exact ih (keeps s c waiting h front isGoal) found

end Search

namespace Maze

theorem search_spec (m : Maze) :
    (∃ path, m.search = .found path ∧ m.WalksFrom m.start m.goal path ∧
      path.length = m.depth m.goal + 1) ∨
    (¬ m.Reaches m.start m.goal ∧ m.search = .unreachable {c | m.Reaches m.start c}.ncard) :=
  (Search.Sound.initial m).run_spec (by simp [Search.Enough, Search.initial, Search.visited])

theorem search_of_reaches {m : Maze} (h : m.Reaches m.start m.goal) :
    ∃ path, m.search = .found path ∧ m.WalksFrom m.start m.goal path ∧
      path.length = m.depth m.goal + 1 :=
  m.search_spec.resolve_right fun apart => apart.1 h

/-- **The path found is a shortest walk from start to goal.** It is empty exactly when there is no
walk, and then the number of cells within reach of the start is logged. -/
theorem shortestPath_correct (m : Maze) :
    (m.Reaches m.start m.goal →
      m.WalksFrom m.start m.goal m.shortestPath ∧
        ∀ walk, m.WalksFrom m.start m.goal walk → m.shortestPath.length ≤ walk.length) ∧
    (m.shortestPath = [] ↔ ¬ m.Reaches m.start m.goal) ∧
    (¬ m.Reaches m.start m.goal →
      m.search.events m =
        [.goalUnreachable m.start m.goal {c | m.Reaches m.start c}.ncard]) := by
  rcases m.search_spec with ⟨path, found, walks, short⟩ | ⟨apart, result⟩
  · have isPath : m.shortestPath = path := by rw [shortestPath, found, Search.Result.path]
    have reaches : m.Reaches m.start m.goal := ⟨path, walks⟩
    have nonempty : path ≠ [] := by
      rintro rfl
      exact absurd short (Nat.succ_ne_zero _).symm
    rw [isPath]
    refine ⟨fun _ => ⟨walks, fun walk other => ?_⟩, ?_, fun apart => absurd reaches apart⟩
    · rw [short]
      exact other.depth_lt_length
    · exact ⟨fun empty => absurd empty nonempty, fun apart => absurd reaches apart⟩
  · have isPath : m.shortestPath = [] := by rw [shortestPath, result, Search.Result.path]
    refine ⟨fun reaches => absurd reaches apart, ⟨fun _ => apart, fun _ => isPath⟩, fun _ => ?_⟩
    rw [result, Search.Result.events]

end Maze

end Labyrinth
