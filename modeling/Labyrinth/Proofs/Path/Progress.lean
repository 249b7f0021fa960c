import Labyrinth.Proofs.Path.BreadthFirst

/-!
# The loops of a search end

**Theorem (`search_loops_end`).** A search takes no cell twice from its queue, so it takes no more
than the grid has. What waits is ordered by its distance from the start and spans at most two
distances, and every cell entered from another lies one passage further than that one. So a search
comes to its end, and going back from a goal that was found leads to the start in as many hops as
the goal is away.

Both loops are told turn by turn here (`Underway`, `GoesBack`), without a bound for the number of
turns, so that it can be asked whether they end. The cells taken and those that wait are together
the cells reached (`Underway.perm`), and no cell is reached twice. Each turn of the first loop takes
one more (`Underway.exists_over`); each hop of the second goes back along the path that was found
(`Linked.exists_goesBack`).
-/

namespace Labyrinth

namespace Search

/-! ## The two loops of a search -/

/-- The state a search of the maze comes to once it has taken and expanded these cells, in this
order. -/
inductive Underway (m : Maze) : List Cell → Search → Prop
  | start : Underway m [] (.initial m.start)
  | expand {taken : List Cell} {s : Search} {c : Cell} {waiting : List Cell} :
      Underway m taken s → s.queue = c :: waiting → c ≠ m.goal →
      Underway m (taken ++ [c]) (s.expand m c waiting)

/-- No more cells are expanded: none waits, or the goal is due. -/
def Over (m : Maze) (s : Search) : Prop := s.queue = [] ∨ s.queue.head? = some m.goal

instance (m : Maze) (s : Search) : Decidable (s.Over m) := inferInstanceAs (Decidable (_ ∨ _))

/-- Going back from a cell leads through the others, in this order, and ends with the last. -/
inductive GoesBack (s : Search) : Cell → List Cell → Prop
  | here {c : Cell} : s.predecessor? c = none → GoesBack s c []
  | hop {c p : Cell} {way : List Cell} :
      s.predecessor? c = some p → GoesBack s p way → GoesBack s c (p :: way)

variable {m : Maze} {s : Search} {c p : Cell} {waiting taken way way' : List Cell}

/-! ## Expanding -/

theorem Underway.sound (h : Underway m taken s) : Sound m s := by
  induction h with
  | start => exact .initial m
  | expand _ front notGoal ih => exact ih.expand front notGoal

/-- The cells reached are those taken and those that wait. -/
theorem Underway.perm (h : Underway m taken s) :
    (taken ++ s.queue).Perm (s.reached.map Prod.fst) := by
  induction h with
  | start => exact .refl _
  | @expand taken s c waiting _ front _ ih =>
    rw [front] at ih
    have reached : (s.expand m c waiting).reached.map Prod.fst =
        s.discoveries m c ++ s.reached.map Prod.fst := by
      simp [Search.expand, Function.comp_def]
    rw [reached]
    calc ((taken ++ [c]) ++ (waiting ++ s.discoveries m c)).Perm
            ((taken ++ c :: waiting) ++ s.discoveries m c) := by
          rw [← List.append_assoc, List.append_cons taken c waiting]
      List.Perm _ (s.discoveries m c ++ (taken ++ c :: waiting)) := List.perm_append_comm
      List.Perm _ (s.discoveries m c ++ s.reached.map Prod.fst) := ih.append_left _

theorem Underway.nodup (h : Underway m taken s) : (taken ++ s.queue).Nodup :=
  h.perm.nodup_iff.2 h.sound.distinct

theorem Underway.length_le (h : Underway m taken s) :
    (taken ++ s.queue).length ≤ m.cellCount := by
  rw [h.perm.length_eq, List.length_map]
  exact h.sound.visited_le

/-- The run that counts its turns goes through the same states. -/
theorem Underway.run_eq (h : Underway m taken s) (fuel : Nat) :
    run m (taken.length + fuel) (.initial m.start) = run m fuel s := by
  induction h generalizing fuel with
  | start => rw [List.length_nil, Nat.zero_add]
  | @expand taken s c waiting _ front notGoal ih =>
    rw [List.length_append, List.length_singleton, Nat.add_assoc, Nat.add_comm 1, ih, run, front]
    exact if_neg notGoal

theorem Underway.exists_over (h : Underway m taken s) :
    ∃ more last, Underway m (taken ++ more) last ∧ last.Over m := by
  generalize left : m.cellCount - taken.length = n
  induction n generalizing taken s with
  | zero =>
    have few := h.length_le
    rw [List.length_append] at few
    have empty : s.queue = [] := List.length_eq_zero_iff.1 (by omega)
    exact ⟨[], s, by rwa [List.append_nil], .inl empty⟩
  | succ n ih =>
    cases front : s.queue with
    | nil => exact ⟨[], s, by rwa [List.append_nil], .inl front⟩
    | cons c waiting =>
      by_cases isGoal : c = m.goal
      · refine ⟨[], s, by rwa [List.append_nil], .inr ?_⟩
        rw [front, isGoal, List.head?_cons]
      · have next := h.expand front isGoal
        obtain ⟨more, last, underway, atEnd⟩ := ih next (by simp; omega)
        exact ⟨c :: more, last, by rwa [List.append_assoc] at underway, atEnd⟩

theorem Underway.search_eq (h : Underway m taken s) (atEnd : s.Over m) :
    m.search = if s.queue = [] then .unreachable s.visited else .found (s.pathTo m.goal) := by
  have few := h.length_le
  rw [List.length_append] at few
  obtain ⟨spare, enough⟩ := Nat.exists_eq_add_of_le (show taken.length ≤ m.cellCount by omega)
  rw [Maze.search, enough, Nat.add_assoc, h.run_eq, run]
  cases front : s.queue with
  | nil => rfl
  | cons c waiting =>
    have isGoal : c = m.goal := by simpa [Over, front] using atEnd
    simp [isGoal]

/-! ## Going back -/

theorem mem_reached_of_predecessor? (found : s.predecessor? c = some p) :
    (c, some p) ∈ s.reached := by
  obtain ⟨earlier, later, split, -⟩ := List.lookup_eq_some_iff.1 (Option.join_eq_some_iff.1 found)
  rw [split]
  exact List.mem_append_right _ List.mem_cons_self

theorem GoesBack.unique (h : s.GoesBack c way) (other : s.GoesBack c way') : way' = way := by
  induction h generalizing way' with
  | here ends =>
    cases other with
    | here => rfl
    | hop goes => cases ends.symm.trans goes
  | hop goes _ ih =>
    cases other with
    | here ends => cases ends.symm.trans goes
    | hop goes' rest =>
      obtain rfl := Option.some.inj (goes.symm.trans goes')
      rw [ih rest]

/-- The path to a cell is the way back from it, turned around. -/
theorem Linked.exists_goesBack (h : Linked m s) (reached : s.HasReached c) :
    ∃ way, s.GoesBack c way ∧ s.pathTo c = (c :: way).reverse := by
  refine h.pathTo_induction
    (P := fun c walk => ∃ way, s.GoesBack c way ∧ walk = (c :: way).reverse) ?_ ?_ reached
  · exact ⟨[], .here (h.predecessor?_eq h.start_mem), rfl⟩
  · rintro c p walk entry ⟨way, back, rfl⟩
    exact ⟨p :: way, .hop (h.predecessor?_eq entry) back, List.reverse_cons.symm⟩

end Search

/-- **Both loops of a search end**, the first within as many turns as the grid has cells, the second
in as many hops as the goal is away. -/
theorem Maze.search_loops_end (m : Maze) :
    (∀ taken s, Search.Underway m taken s →
      (taken ++ s.queue).Nodup ∧ ((taken ++ s.queue).length : Int) ≤ m.width * m.height ∧
      s.queue.Pairwise (m.depth · ≤ m.depth ·) ∧
      (∀ a ∈ s.queue, m.Reaches m.start a ∧ ∀ b ∈ s.queue, m.depth b ≤ m.depth a + 1) ∧
      ∀ c p, s.predecessor? c = some p →
        m.Reaches m.start p ∧ m.Open p c ∧ m.depth c = m.depth p + 1) ∧
    ∃ taken s, Search.Underway m taken s ∧ s.Over m ∧
      (s.queue = [] → m.search = .unreachable s.visited) ∧
      (s.queue ≠ [] → ∃ way, (∀ other, s.GoesBack m.goal other ↔ other = way) ∧
        way.length = m.depth m.goal ∧ (m.goal :: way).getLast? = some m.start ∧
        m.search = .found (m.goal :: way).reverse) := by
  constructor
  · intro taken s underway
    have sound := underway.sound
    have few : ((taken ++ s.queue).length : Int) ≤ m.cellCount := mod_cast underway.length_le
    refine ⟨underway.nodup, m.proper.cellCount_eq ▸ few, sound.levels, ?_, ?_⟩
    · intro a waits
      have reached := sound.queue_reached a waits
      refine ⟨reaches_iff_reachable.2 (sound.reachable a reached), fun b waits' => ?_⟩
      exact sound.span a waits b (sound.queue_reached b waits')
    · intro c p found
      obtain ⟨reached, link⟩ := sound.link c p (Search.mem_reached_of_predecessor? found)
      exact ⟨reaches_iff_reachable.2 (sound.reachable p reached), link⟩
  · obtain ⟨taken, s, underway, atEnd⟩ := Search.Underway.exists_over (.start (m := m))
    have sound := underway.sound
    have result := underway.search_eq atEnd
    refine ⟨taken, s, underway, atEnd, fun empty => by rw [result, if_pos empty], fun waits => ?_⟩
    -- the search ended with cells waiting, so the goal was due
    have due : s.queue.head? = some m.goal := atEnd.resolve_left waits
    have reached : s.HasReached m.goal := sound.queue_reached _ (List.mem_of_mem_head? due)
    obtain ⟨way, back, path⟩ := sound.exists_goesBack reached
    obtain ⟨walks, short⟩ := sound.pathTo_spec reached
    rw [path] at walks short
    refine ⟨way, fun other => ⟨back.unique, ?_⟩, by simpa using short, ?_, ?_⟩
    · rintro rfl
      exact back
    · rw [← List.head?_reverse]
      exact walks.1
    · rw [result, if_neg waits, path]

end Labyrinth
