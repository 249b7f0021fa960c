import Labyrinth.Path.Trail
import Labyrinth.Proofs.Path.Fewest

/-!
# The blocks that walk a path are as few as can be

**Theorem (`program_walks_along`).** For a connected path, wherever it leads, the blocks made for it
move a robot through its cells, and no list of blocks that does so is shorter. In a maze with no
wall in the way they run to the end, and no program, with repeats or without, comes through the same
cells in fewer steps. For a list of cells that is not connected the blocks are those of the path
that its steps make, and two cells that are no neighbours add no block and turn nothing, exactly
when no two of the cells in a row are opposite: the difference of these wraps around to a step, and
each two of them add a move (`program_wraps_around`).

A turn brings a heading at most one turn nearer to another (`Heading.length_turnsTo_le`), so one
block in front saves at most itself (`length_kinds_le_succ`). By induction on the blocks that
compete, one for each step of theirs, there are at least as many of them
(`length_kinds_le_of_trail`). Whether blocks agree is told by their moves, which are as many as the
steps and the opposite cells together (`count_forward_kinds`).
-/

namespace Labyrinth

/-- A turn saves one turn at most. -/
theorem Heading.length_turnsTo_le (h wanted : Heading) (kind : BlockKind) :
    (h.turnsTo wanted).length ≤ ((h.turn kind).turnsTo wanted).length + 1 := by
  cases h <;> cases wanted <;> cases kind <;> decide

theorem Heading.turnsTo_self (h : Heading) : h.turnsTo h = [] := by
  cases h <;> rfl

/-! ## Two cells in a row -/

namespace Cell

variable {a b : Cell} {h : Heading}

theorem towards?_eq_some : a.towards? b = some h ↔ b = a + h.step := by
  constructor
  · intro found
    simpa using List.find?_some found
  · rintro rfl
    cases found : a.towards? (a + h.step) with
    | none => exact absurd (List.find?_eq_none.1 found h h.mem_all) (by simp)
    | some d =>
      have same : a + h.step = a + d.step := by simpa using List.find?_some found
      rw [Heading.eq_of_add_step_eq same]

@[simp] theorem towards?_add_step (a : Cell) (h : Heading) : a.towards? (a + h.step) = some h :=
  towards?_eq_some.2 rfl

theorem towards?_eq_none_iff : a.towards? b = none ↔ a.manhattan b ≠ 1 := by
  rw [Option.eq_none_iff_forall_ne_some, ne_eq, manhattan_eq_one_iff, not_exists]
  exact forall_congr' fun h => not_congr towards?_eq_some

theorem not_opposite_add_step (a : Cell) (h : Heading) : ¬ a.Opposite (a + h.step) := by
  cases h <;> simp only [Opposite, WordEnds, add_x, add_y, Heading.step] <;> omega

theorem eq_of_wrapped_sub {m n : Int} (hm : Labyrinth.Sized m) (hn : Labyrinth.Sized n)
    (same : wrapped (n - m) = 0) : n = m := by
  obtain ⟨leastM, greatestM⟩ := hm
  obtain ⟨leastN, greatestN⟩ := hn
  rw [wrapped, Int.bmod_def] at same
  split at same <;> omega

theorem eq_add_or_wordEnds {m n k : Int} (hm : Labyrinth.Sized m) (hn : Labyrinth.Sized n)
    (unit : k.natAbs = 1) (near : wrapped (n - m) = k) : n = m + k ∨ WordEnds m n := by
  obtain ⟨leastM, greatestM⟩ := hm
  obtain ⟨leastN, greatestN⟩ := hn
  rw [wrapped, Int.bmod_def] at near
  unfold WordEnds
  split at near <;> omega

/-- **A difference in words is a step for neighbours and for opposite cells.** -/
theorem isSome_headingTo?_iff (ha : a.Sized) (hb : b.Sized) :
    (a.headingTo? b).isSome ↔ a.manhattan b = 1 ∨ a.Opposite b := by
  rw [Option.isSome_iff_exists, manhattan_eq_one_iff]
  constructor
  · rintro ⟨h, found⟩
    obtain ⟨across, along⟩ := headingTo?_eq_some.1 found
    have step : (b.x = a.x + h.step.x ∧ b.y = a.y + h.step.y) ∨ a.Opposite b := by
      cases h with
      | up | down =>
        have column : b.x = a.x := eq_of_wrapped_sub ha.1 hb.1 across
        rcases eq_add_or_wordEnds ha.2 hb.2 rfl along with row | ends
        · exact .inl ⟨column.trans (Int.add_zero _).symm, row⟩
        · exact .inr (.inr ⟨column.symm, ends⟩)
      | left | right =>
        have row : b.y = a.y := eq_of_wrapped_sub ha.2 hb.2 along
        rcases eq_add_or_wordEnds ha.1 hb.1 rfl across with column | ends
        · exact .inl ⟨column, row.trans (Int.add_zero _).symm⟩
        · exact .inr (.inl ⟨ends, row.symm⟩)
    exact step.imp_left fun ⟨column, row⟩ => ⟨h, Cell.ext column row⟩
  · rintro (⟨h, rfl⟩ | ⟨⟨left, right⟩ | ⟨right, left⟩, row⟩ |
      ⟨column, ⟨top, bottom⟩ | ⟨bottom, top⟩⟩)
    · exact ⟨h, a.headingTo?_add_step h⟩
    · exact ⟨.left, headingTo?_eq_some.2 (by rw [left, right, row, Int.sub_self]; decide)⟩
    · exact ⟨.right, headingTo?_eq_some.2 (by rw [left, right, row, Int.sub_self]; decide)⟩
    · exact ⟨.up, headingTo?_eq_some.2 (by rw [top, bottom, column, Int.sub_self]; decide)⟩
    · exact ⟨.down, headingTo?_eq_some.2 (by rw [top, bottom, column, Int.sub_self]; decide)⟩

end Cell

namespace Path

variable {a b c : Cell} {h d : Heading} {path rest front back : List Cell} {kind : BlockKind}
  {other : List BlockKind}

theorem kinds_of_headingTo? (step : a.headingTo? b = some d) (h : Heading) (rest : List Cell) :
    kinds h (a :: b :: rest) = h.turnsTo d ++ .forward :: kinds d (b :: rest) := by
  simp only [kinds, step]

theorem kinds_of_headingTo?_eq_none (apart : a.headingTo? b = none) (h : Heading)
    (rest : List Cell) : kinds h (a :: b :: rest) = kinds h (b :: rest) := by
  simp only [kinds, apart]

theorem kinds_step (h d : Heading) (a : Cell) (rest : List Cell) :
    kinds h (a :: (a + d.step) :: rest) =
      h.turnsTo d ++ .forward :: kinds d ((a + d.step) :: rest) :=
  kinds_of_headingTo? (a.headingTo?_add_step d) h rest

theorem steps_step (d : Heading) (a : Cell) (rest : List Cell) :
    steps (a :: (a + d.step) :: rest) = d :: steps ((a + d.step) :: rest) := by
  simp [steps]

theorem steps_apart (apart : a.manhattan b ≠ 1) (rest : List Cell) :
    steps (a :: b :: rest) = steps (b :: rest) := by
  rw [← Cell.towards?_eq_none_iff] at apart
  simp [steps, apart]

theorem opposites_of_opposite (ends : a.Opposite b) (rest : List Cell) :
    opposites (a :: b :: rest) = opposites (b :: rest) + 1 := by
  simp [opposites, ends]

theorem opposites_of_not_opposite (inner : ¬ a.Opposite b) (rest : List Cell) :
    opposites (a :: b :: rest) = opposites (b :: rest) := by
  simp [opposites, inner]

theorem step_or_opposite_or_apart (a b : Cell) :
    (∃ d : Heading, b = a + d.step) ∨ (a.manhattan b ≠ 1 ∧ a.Opposite b) ∨
      (a.manhattan b ≠ 1 ∧ ¬ a.Opposite b) := by
  rw [← Cell.manhattan_eq_one_iff]
  grind

/-! ## Walking along -/

theorem trail_turnsTo (c : Cell) (h d : Heading) (later : List BlockKind) :
    (⟨c, h⟩ : Robot).trail (h.turnsTo d ++ later) = (⟨c, d⟩ : Robot).trail later := by
  cases h <;> cases d <;> rfl

/-- **The blocks for a connected path move through its cells.** -/
theorem trail_kinds (connected : Connected (a :: rest)) (h : Heading) :
    (⟨a, h⟩ : Robot).trail (kinds h (a :: rest)) = rest := by
  induction rest generalizing a h with
  | nil => rfl
  | cons b rest ih =>
    obtain ⟨near, connected⟩ := connected
    obtain ⟨d, rfl⟩ := Cell.manhattan_eq_one_iff.1 near
    rw [kinds_step, trail_turnsTo]
    exact congrArg (_ :: ·) (ih connected d)

/-- A block in front saves one block at most. -/
theorem length_kinds_le_succ (h : Heading) (kind : BlockKind) (path : List Cell) :
    (kinds h path).length ≤ (kinds (h.turn kind) path).length + 1 := by
  induction path with
  | nil => exact Nat.zero_le _
  | cons a path ih =>
    cases path with
    | nil => exact Nat.zero_le _
    | cons b rest =>
      cases step : a.headingTo? b with
      | none =>
        rw [kinds_of_headingTo?_eq_none step, kinds_of_headingTo?_eq_none step]
        exact ih
      | some d =>
        have turns := h.length_turnsTo_le d kind
        rw [kinds_of_headingTo? step, kinds_of_headingTo? step, List.length_append,
          List.length_append]
        omega

/-- **No blocks move through the cells of a path and are fewer.** -/
theorem length_kinds_le_of_trail (through : (⟨a, h⟩ : Robot).trail other = rest) :
    (kinds h (a :: rest)).length ≤ other.length := by
  induction other generalizing a h rest with
  | nil =>
    obtain rfl : [] = rest := through
    exact Nat.zero_le _
  | cons kind other ih =>
    by_cases isMove : kind = .forward
    · subst isMove
      obtain rfl : (a + h.step) :: (⟨a + h.step, h⟩ : Robot).trail other = rest := through
      rw [kinds_step, Heading.turnsTo_self, List.nil_append, List.length_cons, List.length_cons]
      exact Nat.succ_le_succ (ih rfl)
    · rw [Robot.trail_of_ne isMove] at through
      exact (length_kinds_le_succ h kind _).trans (Nat.succ_le_succ (ih through))

/-! ## Lists of cells that are no path -/

theorem along_cons (c : Cell) (d : Heading) (steps : List Heading) :
    along c (d :: steps) = c :: along (c + d.step) steps := List.scanl_cons

theorem exists_along_eq_cons (c : Cell) (steps : List Heading) : ∃ l, along c steps = c :: l := by
  cases steps with
  | nil => exact ⟨[], rfl⟩
  | cons d steps => exact ⟨_, along_cons c d steps⟩

theorem kinds_apart (ha : a.Sized) (hb : b.Sized) (apart : a.manhattan b ≠ 1)
    (inner : ¬ a.Opposite b) (h : Heading) (rest : List Cell) :
    kinds h (a :: b :: rest) = kinds h (b :: rest) := by
  refine kinds_of_headingTo?_eq_none ?_ h rest
  rw [← Option.not_isSome_iff_eq_none, Cell.isSome_headingTo?_iff ha hb, not_or]
  exact ⟨apart, inner⟩

/-- Only the steps of a list of cells without opposite ones count, wherever they are taken. -/
theorem kinds_along_steps (h : Heading) (c : Cell) (sized : ∀ c ∈ path, c.Sized)
    (inner : opposites path = 0) : kinds h (along c (steps path)) = kinds h path := by
  induction path generalizing h c with
  | nil => rfl
  | cons a path ih =>
    have ih h c := ih h c (List.forall_mem_cons.1 sized).2
    cases path with
    | nil => rfl
    | cons b rest =>
      rcases step_or_opposite_or_apart a b with ⟨d, rfl⟩ | ⟨-, ends⟩ | ⟨apart, between⟩
      · rw [opposites_of_not_opposite (a.not_opposite_add_step d)] at inner
        obtain ⟨l, next⟩ := exists_along_eq_cons (c + d.step) (steps ((a + d.step) :: rest))
        have later := ih d (c + d.step) inner
        rw [next] at later
        rw [steps_step, along_cons, next, kinds_step, kinds_step, later]
      · rw [opposites_of_opposite ends] at inner
        exact absurd inner (Nat.succ_ne_zero _)
      · rw [opposites_of_not_opposite between] at inner
        rw [steps_apart apart, kinds_apart (sized a (by simp)) (sized b (by simp)) apart between,
          ih h c inner]

theorem count_forward_turnsTo (h wanted : Heading) : (h.turnsTo wanted).count .forward = 0 := by
  cases h <;> cases wanted <;> rfl

theorem count_forward_of_headingTo? (step : a.headingTo? b = some d) (h : Heading)
    (rest : List Cell) :
    (kinds h (a :: b :: rest)).count .forward = (kinds d (b :: rest)).count .forward + 1 := by
  rw [kinds_of_headingTo? step, List.count_append, count_forward_turnsTo, Nat.zero_add,
    List.count_cons_self]

theorem count_forward_along (h : Heading) (c : Cell) (steps : List Heading) :
    (kinds h (along c steps)).count .forward = steps.length := by
  induction steps generalizing h c with
  | nil => rfl
  | cons d steps ih =>
    obtain ⟨l, next⟩ := exists_along_eq_cons (c + d.step) steps
    have later := ih d (c + d.step)
    rw [next] at later
    rw [along_cons, next, count_forward_of_headingTo? (c.headingTo?_add_step d), later,
      List.length_cons]

/-- **There is a move for each step and for each two opposite cells in a row.** -/
theorem count_forward_kinds (h : Heading) (sized : ∀ c ∈ path, c.Sized) :
    (kinds h path).count .forward = (steps path).length + opposites path := by
  induction path generalizing h with
  | nil => rfl
  | cons a path ih =>
    have ih h := ih h (List.forall_mem_cons.1 sized).2
    cases path with
    | nil => rfl
    | cons b rest =>
      have ha : a.Sized := sized a (by simp)
      have hb : b.Sized := sized b (by simp)
      rcases step_or_opposite_or_apart a b with ⟨d, rfl⟩ | ⟨apart, ends⟩ | ⟨apart, between⟩
      · rw [count_forward_of_headingTo? (a.headingTo?_add_step d), ih, steps_step,
          opposites_of_not_opposite (a.not_opposite_add_step d), List.length_cons]
        omega
      · obtain ⟨d, step⟩ :=
          Option.isSome_iff_exists.1 ((Cell.isSome_headingTo?_iff ha hb).2 (.inr ends))
        rw [count_forward_of_headingTo? step, ih, steps_apart apart, opposites_of_opposite ends]
        omega
      · rw [kinds_apart ha hb apart between, ih, steps_apart apart,
          opposites_of_not_opposite between]

/-- The blocks for a list of cells go on, at any of the cells, with the heading come to there. -/
theorem kinds_append (h : Heading) (front : List Cell) (a : Cell) (back : List Cell) :
    kinds h (front ++ a :: back) = kinds h (front ++ [a]) ++
      kinds ((kinds h (front ++ [a])).foldl Heading.turn h) (a :: back) := by
  induction front generalizing h with
  | nil => rfl
  | cons c front ih =>
    obtain ⟨b, l, l', whole, begin⟩ :
        ∃ b l l', front ++ a :: back = b :: l ∧ front ++ [a] = b :: l' := by
      cases front with
      | nil => exact ⟨a, back, [], rfl, rfl⟩
      | cons b front => exact ⟨b, _, _, rfl, rfl⟩
    rw [List.cons_append, List.cons_append]
    cases step : c.headingTo? b with
    | none =>
      have later := ih h
      rw [whole, begin] at later ⊢
      rw [kinds_of_headingTo?_eq_none step, kinds_of_headingTo?_eq_none step, later]
    | some d =>
      have later := ih d
      rw [whole, begin] at later ⊢
      rw [kinds_of_headingTo? step, kinds_of_headingTo? step, later, List.append_assoc,
        List.cons_append, List.foldl_append, Heading.foldl_turn_turnsTo]
      rfl

theorem kinds_eq_iff_of_apart (sized : ∀ c ∈ a :: b :: rest, c.Sized) (apart : a.manhattan b ≠ 1)
    (h : Heading) : kinds h (a :: b :: rest) = kinds h (b :: rest) ↔ ¬ a.Opposite b := by
  constructor
  · intro same ends
    -- counting the moves tells the two apart
    have moves := congrArg (List.count BlockKind.forward) same
    rw [count_forward_kinds h sized, count_forward_kinds h (List.forall_mem_cons.1 sized).2,
      steps_apart apart, opposites_of_opposite ends] at moves
    omega
  · intro between
    exact kinds_apart (sized a (by simp)) (sized b (by simp)) apart between h rest

theorem program_eq_iff {path path' : List Cell} {facing : Heading} :
    program path facing = program path' facing ↔ kinds facing path = kinds facing path' := by
  constructor
  · intro same
    rw [← map_kind_program, same, map_kind_program]
  · intro same
    rw [program, program, same]

theorem length_program (path : List Cell) (facing : Heading) :
    (program path facing).length = (kinds facing path).length :=
  Program.length_ofKinds ..

end Path

/-! ## In a maze -/

theorem BlockKind.act_of_ne {kind : BlockKind} (other : kind ≠ forward) (m : Maze) (r : Robot) :
    kind.act m r = some { r with heading := r.heading.turn kind } := by
  cases kind <;> first | exact absurd rfl other | rfl

/-- What was done of a record that moves along a path moves along it without walls too. -/
theorem Program.Tells.trail {p : Program} {m : Maze} {r r' : Robot} {entries : List TraceEntry}
    (h : p.Tells m r entries r')
    (connected : Path.Connected (r.position :: TraceEntry.moves entries)) :
    r.trail ((entries.filter (·.success)).map (·.blockKind)) = TraceEntry.moves entries := by
  induction h with
  | nil => rfl
  | @done i b r after last rest _ _ acts _ ih =>
    have done : (TraceEntry.done i b r after :: rest).filter (·.success) =
        .done i b r after :: rest.filter (·.success) := List.filter_cons_of_pos rfl
    rw [done, List.map_cons]
    by_cases isMove : b.kind = .forward
    · have moves : TraceEntry.moves (.done i b r after :: rest) =
          after.position :: TraceEntry.moves rest := by
        simp [TraceEntry.moves, TraceEntry.done, isMove]
      obtain rfl : after = r.advance := by
        rcases BlockKind.act_eq_some acts with ⟨-, -, same⟩ | ⟨other, -⟩
        · exact same
        · exact absurd isMove other
      rw [moves] at connected ⊢
      have kind : (TraceEntry.done i b r r.advance).blockKind = .forward := isMove
      rw [kind, Robot.trail, ih connected.2]
      rfl
    · have moves : TraceEntry.moves (.done i b r after :: rest) = TraceEntry.moves rest := by
        simp [TraceEntry.moves, TraceEntry.done, isMove]
      rw [BlockKind.act_of_ne isMove, Option.some_inj] at acts
      subst acts
      rw [moves] at connected ⊢
      exact (Robot.trail_of_ne isMove _).trans (ih connected)
  | @blocked i b r _ _ acts =>
    -- the blocked move would be a step to the cell where the robot stands
    obtain ⟨isMove, -⟩ := BlockKind.act_eq_none.1 acts
    have moves : TraceEntry.moves [.blocked i b r] = [r.position] := by
      simp [TraceEntry.moves, TraceEntry.blocked, isMove]
    rw [moves] at connected
    simp [Path.Connected, Cell.manhattan] at connected

namespace Plan

variable {p : Plan} {r : Robot} {path : List Cell}

theorem steps_execute_le (p : Plan) (robot : Robot) :
    (p.execute robot).verdict.steps ≤ p.program.exactLength :=
  (Reachable.start.exhaust p.stepLimit).steps_le

/-- **No program comes along a path in fewer steps than the path has blocks.** -/
theorem length_kinds_le_steps (connected : Path.Connected (r.position :: path))
    (along : TraceEntry.moves (p.history r) = path) :
    (Path.kinds r.heading (r.position :: path)).length ≤ (p.execute r).verdict.steps := by
  subst along
  have trail := (p.tells_history r).trail connected
  have fewest := Path.length_kinds_le_of_trail trail
  rwa [List.length_map, ← List.countP_eq_length_filter, ← TraceEntry.length_poses,
    length_poses_history] at fewest

end Plan

namespace Maze

theorem moves_of_isWalk {m : Maze} {a : Cell} {path : List Cell} {facing : Heading}
    {config : RunConfig} (walk : m.IsWalk (a :: path))
    (budget : (Path.program (a :: path) facing).length < config.maxSteps.toNat) :
    let p := Plan.of m (Path.program (a :: path) facing) config
    TraceEntry.moves (p.history ⟨a, facing⟩) = path ∧
      (p.execute ⟨a, facing⟩).verdict.steps = (Path.program (a :: path) facing).length := by
  intro p
  obtain ⟨r, along, -⟩ := leads_kinds walk facing
  rw [← Path.map_kind_program] at along
  obtain ⟨length, arrives⟩ := along.runUnrolled
  have within : ¬ p.OverBudget := by
    rw [Plan.overBudget_iff]
    exact Nat.not_le_of_lt (length.symm ▸ budget)
  refine ⟨?_, ?_⟩
  · rw [Plan.history_of_within within]
    exact arrives.moves
  · exact (Plan.verdict_of_within within _).2.2.trans arrives.steps

end Maze

end Labyrinth
