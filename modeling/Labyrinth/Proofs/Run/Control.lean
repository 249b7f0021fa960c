import Labyrinth.Proofs.Program.Measure
import Labyrinth.Run.Execution

/-!
# Where the program counter and the active repeats lead

The control part of a run is the program counter with the stack of active repeats. This file says
which such pairs a run comes to, what they still have to run, and how the counter moves past
brackets.

**The invariant** (`Nested`). Each active repeat has an opening bracket that asks for it, and the
counter stands in the level that is its body. Behind the end of the body the counter would stand in
the body of the repeat around it.

**What is still to come** (`remainder`). The rest of the level of the counter, the passes over the
innermost body that are left, and then what is to come behind that repeat.

**Moves past brackets** (`PastBracket`). A body starts over or is left, a repeat is entered or
skipped, a stray bracket is passed. Such a move keeps the invariant and what is still to come
(`PastBracket.nested`, `PastBracket.remainder_eq`), and makes a weight smaller that is never more
than `3 * length + 2` (`PastBracket.weight_lt`, `weight_le`). The weight counts on a body that
starts over to run something: only bodies that do are ever entered.
-/

namespace Labyrinth

open Outline

/-- The counter stands in the body of an active repeat. -/
structure Frame.Holds (p : Program) (pc : Nat) (f : Frame) : Prop where
  opening : ∃ b, p.blocks[f.start]? = some b ∧ b.kind = .repeatStart ∧ f.remaining ≤ b.iterations
  pos : 0 < f.remaining
  runs : countAll (p.levelAt (f.start + 1)) ≠ 0
  stop_eq : p.levelEnd (f.start + 1) = f.stop
  start_lt : f.start < pc
  levelEnd_eq : p.levelEnd pc = f.stop

namespace Program

variable {p : Program} {pc pc' : Nat} {frames frames' : List Frame} {f : Frame} {b : Block}

/-- The counter stands in the bodies of all the active repeats, one within the other. -/
def Nested (p : Program) : Nat → List Frame → Prop
  | pc, [] => pc ≤ p.length + 1
  | pc, f :: outer =>
    pc ≤ p.length + 1 ∧ f.Holds p pc ∧ (∀ g ∈ outer, g.start < f.start) ∧
      Nested p (f.stop + 1) outer

/-- The rest of the level in which the counter stands: of the innermost body, or of the program. -/
def current (p : Program) (pc : Nat) : List Frame → List Outline
  | [] => p.restAt pc
  | _ :: _ => p.levelAt pc

/-- The positions of the primitive blocks that are still to come. -/
def remainder (p : Program) : Nat → List Frame → List Nat
  | pc, [] => expandAll (p.current pc [])
  | pc, f :: outer =>
    expandAll (p.current pc (f :: outer)) ++
      (List.replicate (f.remaining - 1) (expandAll (p.levelAt (f.start + 1)))).flatten ++
      remainder p (f.stop + 1) outer

/-- A bound for the number of brackets that are passed before something is run. -/
def weight (p : Program) (pc : Nat) (frames : List Frame) : Nat :=
  if countAll (p.current pc frames) = 0 then frames.length + (p.length + 1 - pc) + (p.length + 1)
  else p.length - pc

/-- The counter moves past a bracket. -/
inductive PastBracket (p : Program) : Nat → List Frame → Nat → List Frame → Prop
  | again {pc : Nat} {f : Frame} {outer : List Frame} : f.stop ≤ pc → 0 < f.remaining - 1 →
      PastBracket p pc (f :: outer) (f.start + 1) ({ f with remaining := f.remaining - 1 } :: outer)
  | leave {pc : Nat} {f : Frame} {outer : List Frame} : f.stop ≤ pc → ¬ 0 < f.remaining - 1 →
      PastBracket p pc (f :: outer) (f.stop + 1) outer
  | enter {pc : Nat} {frames : List Frame} {b : Block} : p.blocks[pc]? = some b →
      b.kind = .repeatStart → b.iterations ≠ 0 → countAll (p.levelAt (pc + 1)) ≠ 0 →
      PastBracket p pc frames (pc + 1) (⟨pc, p.levelEnd (pc + 1), b.iterations⟩ :: frames)
  | skip {pc : Nat} {frames : List Frame} {b : Block} : p.blocks[pc]? = some b →
      b.kind = .repeatStart → b.iterations = 0 ∨ countAll (p.levelAt (pc + 1)) = 0 →
      PastBracket p pc frames (p.levelEnd (pc + 1) + 1) frames
  | stray {pc : Nat} {b : Block} : p.blocks[pc]? = some b → b.kind = .repeatEnd →
      PastBracket p pc [] (pc + 1) []

/-! ## The rest of a level -/

theorem current_primitive (h : p.blocks[pc]? = some b) (prim : b.kind.isPrimitive)
    (frames : List Frame) :
    p.current pc frames = primitive pc :: p.current (pc + 1) frames := by
  cases frames with
  | nil => exact restAt_primitive h prim
  | cons f outer => exact levelAt_primitive h prim

theorem current_repeatStart (h : p.blocks[pc]? = some b) (kind : b.kind = .repeatStart)
    (frames : List Frame) :
    p.current pc frames =
      loop pc b.iterations (p.levelAt (pc + 1)) :: p.current (p.levelEnd (pc + 1) + 1) frames := by
  cases frames with
  | nil => exact restAt_repeatStart h kind
  | cons f outer => exact levelAt_repeatStart h kind

theorem le_levelEnd_succ (h : pc ≤ p.length + 1) : pc ≤ p.levelEnd pc + 1 := by
  by_cases inside : pc ≤ p.length
  · have := le_levelEnd inside
    omega
  · rw [levelEnd_of_length_le (by omega)]
    omega

theorem lt_levelEnd_of_repeatStart (h : p.blocks[pc]? = some b) : pc < p.levelEnd (pc + 1) :=
  le_levelEnd (lt_length_of_getElem? h)

theorem levelAt_eq_nil (h : p.levelEnd pc ≤ pc) : p.levelAt pc = [] := by
  by_cases inside : pc < p.length
  · have found : p.blocks[pc]? = some p.blocks[pc] := List.getElem?_eq_getElem inside
    have next : pc + 1 ≤ p.levelEnd (pc + 1) := le_levelEnd inside
    cases kind : p.blocks[pc].kind with
    | repeatEnd => exact levelAt_repeatEnd found kind
    | repeatStart =>
      have behind : p.levelEnd (pc + 1) + 1 ≤ p.levelEnd (p.levelEnd (pc + 1) + 1) + 1 :=
        le_levelEnd_succ (Nat.succ_le_succ (levelEnd_le_length p _))
      rw [levelEnd_repeatStart found kind] at h
      omega
    | _ =>
      rw [levelEnd_primitive found (by rw [kind]; rfl)] at h
      omega
  · exact levelAt_of_length_le (Nat.le_of_not_lt inside)

theorem expandAll_eq_nil {os : List Outline} : expandAll os = [] ↔ countAll os = 0 := by
  rw [← length_expandAll, List.length_eq_zero_iff]

end Program

/-- At the end of a body nothing is left of it. -/
theorem Frame.Holds.current_eq_nil {p : Program} {pc : Nat} {f : Frame} (h : f.Holds p pc)
    (ended : f.stop ≤ pc) (outer : List Frame) : p.current pc (f :: outer) = [] :=
  Program.levelAt_eq_nil (by rw [h.levelEnd_eq]; exact ended)

namespace Program

variable {p : Program} {pc pc' : Nat} {frames frames' : List Frame} {f : Frame} {b : Block}

/-! ## The invariant -/

theorem Nested.pc_le (h : p.Nested pc frames) : pc ≤ p.length + 1 := by
  cases frames with
  | nil => exact h
  | cons f outer => exact h.1

theorem Nested.start_lt (h : p.Nested pc frames) : ∀ g ∈ frames, g.start < pc := by
  cases frames with
  | nil => simp
  | cons f outer =>
    obtain ⟨-, holds, below, -⟩ := h
    intro g hg
    rcases List.mem_cons.1 hg with rfl | hg
    · exact holds.start_lt
    · exact Nat.lt_trans (below g hg) holds.start_lt

/-- The counter may move on within its level. -/
theorem Nested.move (h : p.Nested pc frames) (on : pc ≤ pc') (bound : pc' ≤ p.length + 1)
    (same : frames ≠ [] → p.levelEnd pc' = p.levelEnd pc) : p.Nested pc' frames := by
  cases frames with
  | nil => exact bound
  | cons f outer =>
    obtain ⟨-, holds, below, around⟩ := h
    have start_lt := holds.start_lt
    exact ⟨bound, { holds with
      start_lt := by omega
      levelEnd_eq := (same (List.cons_ne_nil f outer)).trans holds.levelEnd_eq }, below, around⟩

theorem Nested.primitive (h : p.Nested pc frames) (found : p.blocks[pc]? = some b)
    (prim : b.kind.isPrimitive) : p.Nested (pc + 1) frames :=
  h.move (Nat.le_succ pc) (Nat.succ_le_succ (Nat.le_of_lt (lt_length_of_getElem? found)))
    fun _ => (levelEnd_primitive found prim).symm

theorem Nested.behind_repeat (h : p.Nested pc frames) (found : p.blocks[pc]? = some b)
    (kind : b.kind = .repeatStart) : p.Nested (p.levelEnd (pc + 1) + 1) frames := by
  have later := lt_levelEnd_of_repeatStart found
  exact h.move (by omega) (Nat.succ_le_succ (levelEnd_le_length p _))
    fun _ => (levelEnd_repeatStart found kind).symm

theorem PastBracket.nested (move : p.PastBracket pc frames pc' frames')
    (h : p.Nested pc frames) : p.Nested pc' frames' := by
  cases move with
  | again _ more =>
    obtain ⟨-, holds, below, around⟩ := h
    obtain ⟨b, found, kind, le⟩ := holds.opening
    have start_lt := lt_length_of_getElem? found
    have holds' : Frame.Holds p (_ + 1) { (_ : Frame) with remaining := _ - 1 } :=
      { opening := ⟨b, found, kind, Nat.le_trans (Nat.sub_le _ 1) le⟩
        pos := more
        runs := holds.runs
        stop_eq := holds.stop_eq
        start_lt := Nat.lt_succ_self _
        levelEnd_eq := holds.stop_eq }
    exact ⟨by omega, holds', below, around⟩
  | leave => exact h.2.2.2
  | @enter _ b found kind some_times runs =>
    have bound := lt_length_of_getElem? found
    have holds : Frame.Holds p (pc + 1) ⟨pc, p.levelEnd (pc + 1), b.iterations⟩ :=
      { opening := ⟨b, found, kind, Nat.le_refl _⟩
        pos := Nat.pos_of_ne_zero some_times
        runs := runs
        stop_eq := rfl
        start_lt := Nat.lt_succ_self pc
        levelEnd_eq := rfl }
    exact ⟨by omega, holds, h.start_lt, h.behind_repeat found kind⟩
  | skip found kind _ => exact h.behind_repeat found kind
  | stray found _ => exact Nat.succ_le_succ (Nat.le_of_lt (lt_length_of_getElem? found))

/-! ## What is still to come -/

theorem remainder_eq_append (p : Program) (frames : List Frame) :
    ∃ later, ∀ pc', p.remainder pc' frames = expandAll (p.current pc' frames) ++ later := by
  cases frames with
  | nil => exact ⟨[], fun _ => (List.append_nil _).symm⟩
  | cons f outer => exact ⟨_, fun _ => List.append_assoc ..⟩

/-- A primitive block at the counter is the first that is still to come. -/
theorem remainder_primitive (h : p.blocks[pc]? = some b) (prim : b.kind.isPrimitive)
    (frames : List Frame) : p.remainder pc frames = pc :: p.remainder (pc + 1) frames := by
  obtain ⟨later, split⟩ := remainder_eq_append p frames
  rw [split, split, current_primitive h prim]
  rfl

/-- A repeat at the counter is the first thing that is still to come. -/
theorem remainder_repeatStart (h : p.blocks[pc]? = some b) (kind : b.kind = .repeatStart)
    (frames : List Frame) :
    p.remainder pc frames =
      (List.replicate b.iterations (expandAll (p.levelAt (pc + 1)))).flatten ++
        p.remainder (p.levelEnd (pc + 1) + 1) frames := by
  obtain ⟨later, split⟩ := remainder_eq_append p frames
  rw [split, split, current_repeatStart h kind, expandAll, expand, List.append_assoc]

theorem PastBracket.remainder_eq (move : p.PastBracket pc frames pc' frames')
    (h : p.Nested pc frames) : p.remainder pc' frames' = p.remainder pc frames := by
  cases move with
  | @again f outer ended more =>
    have nothing := h.2.1.current_eq_nil ended outer
    obtain ⟨k, left⟩ : ∃ k, f.remaining = k + 2 := ⟨f.remaining - 2, by omega⟩
    simp only [remainder, nothing, expandAll, left, List.nil_append]
    rw [show k + 2 - 1 - 1 = k by omega, show k + 2 - 1 = k + 1 by omega, List.replicate_succ,
      List.flatten_cons]
    rfl
  | @leave f _ ended last =>
    have nothing := h.2.1.current_eq_nil ended frames'
    have one : f.remaining - 1 = 0 := by omega
    simp only [remainder, nothing, expandAll, one, List.replicate_zero, List.flatten_nil,
      List.nil_append]
  | @enter _ b found kind some_times runs =>
    obtain ⟨k, times⟩ := Nat.exists_eq_succ_of_ne_zero some_times
    rw [remainder_repeatStart found kind, times, List.replicate_succ, List.flatten_cons]
    rfl
  | @skip _ b found kind nothing =>
    rw [remainder_repeatStart found kind]
    rcases nothing with never | empty
    · rw [never, List.replicate_zero, List.flatten_nil, List.nil_append]
    · rw [expandAll_eq_nil.2 empty, List.flatten_replicate_nil, List.nil_append]
  | stray found kind =>
    rw [remainder, remainder, current, current, restAt_repeatEnd found kind]

theorem remainder_eq_nil (h : p.length ≤ pc) : p.remainder pc [] = [] := by
  rw [remainder, current, restAt_of_length_le h, expandAll]

/-! ## The weight -/

theorem Nested.length_le (h : p.Nested pc frames) : frames.length ≤ p.length := by
  have bounded : ∀ {pc : Nat} {frames : List Frame}, p.Nested pc frames →
      ∀ f ∈ frames.head?, frames.length ≤ f.start + 1 ∧ f.start < p.length := by
    intro pc frames h
    induction frames generalizing pc with
    | nil => simp
    | cons f outer ih =>
      obtain ⟨-, holds, below, around⟩ := h
      obtain ⟨b, found, -⟩ := holds.opening
      intro g hg
      cases hg
      refine ⟨?_, lt_length_of_getElem? found⟩
      cases outer with
      | nil => simp
      | cons g outer =>
        have inner := (ih around g rfl).1
        have order := below g List.mem_cons_self
        rw [List.length_cons]
        omega
  cases frames with
  | nil => exact Nat.zero_le _
  | cons f outer =>
    have := bounded h f rfl
    omega

theorem weight_le (h : p.Nested pc frames) : p.weight pc frames ≤ 3 * p.length + 2 := by
  have := h.length_le
  unfold weight
  split <;> omega

theorem weight_of_eq_nil (h : p.current pc frames = []) :
    p.weight pc frames = frames.length + (p.length + 1 - pc) + (p.length + 1) := by
  rw [weight, h, countAll, if_pos rfl]

theorem weight_of_ne (frames : List Frame) (h : countAll (p.current pc frames) ≠ 0) :
    p.weight pc frames = p.length - pc := by
  rw [weight, if_neg h]

/-- A move past a bracket that leaves the same rest of the level, further on. -/
theorem weight_lt_of_current (inside : pc < p.length) (on : pc < pc')
    (same : countAll (p.current pc' frames) = countAll (p.current pc frames)) :
    p.weight pc' frames < p.weight pc frames := by
  unfold weight
  rw [same]
  split <;> omega

theorem PastBracket.weight_lt (move : p.PastBracket pc frames pc' frames')
    (h : p.Nested pc frames) : p.weight pc' frames' < p.weight pc frames := by
  cases move with
  | @again f outer ended more =>
    have holds := h.2.1
    rw [weight_of_eq_nil (holds.current_eq_nil ended outer), weight_of_ne (_ :: outer) holds.runs,
      List.length_cons]
    omega
  | @leave f _ ended last =>
    have bound := h.pc_le
    have on := le_levelEnd_succ bound
    have holds := h.2.1
    rw [holds.levelEnd_eq] at on
    rw [weight_of_eq_nil (holds.current_eq_nil ended frames'), List.length_cons]
    unfold weight
    split <;> omega
  | @enter _ b found kind some_times runs =>
    have inside := lt_length_of_getElem? found
    -- the level runs something, so it outweighs the frame that is pushed
    have something : countAll (p.current pc frames) ≠ 0 := by
      rw [current_repeatStart found kind, countAll, count]
      have := Nat.mul_ne_zero some_times runs
      omega
    rw [weight_of_ne frames something, weight_of_ne (_ :: frames) runs]
    omega
  | @skip _ b found kind nothing =>
    have later := lt_levelEnd_of_repeatStart found
    refine weight_lt_of_current (lt_length_of_getElem? found) (by omega) ?_
    rw [current_repeatStart found kind, countAll, count]
    rcases nothing with never | empty
    · rw [never, Nat.zero_mul, Nat.zero_add]
    · rw [empty, Nat.mul_zero, Nat.zero_add]
  | stray found kind =>
    refine weight_lt_of_current (lt_length_of_getElem? found) (Nat.lt_succ_self pc) ?_
    rw [current, current, restAt_repeatEnd found kind]

end Program

end Labyrinth
