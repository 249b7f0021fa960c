import Labyrinth.Program.Unrolling
import Labyrinth.Proofs.Program.Levels

/-!
# The length of a program is what its outline counts

The one-pass measurement of a program agrees with counting the primitive blocks of its outline, up
to the largest 64-bit number.

While a program is measured, the rest of it has levels of its own. The innermost level still counts
for the innermost open repeat; what that repeat comes to counts for the one around it, to which the
next level is added, and so on (`flow`). Taking in a block changes neither what is finally counted
outside every repeat nor what is finally counted for the body of an open repeat, as long as both are
compared up to the limit.

Main statements: `unrolledLength_eq`, the length of a program is the exact count of its outline up
to the limit; `bodyLengths_repeatStart`, the length of a body is the exact count of its level up to
the limit.
-/

namespace Labyrinth.Program

open Outline

/-! ## Counting up to the limit -/

theorem capped_of_le {n : Nat} (h : n ≤ countLimit) : capped n = n := Nat.min_eq_left h

theorem capped_capped_add (a b : Nat) : capped (capped a + b) = capped (a + b) := by
  simp only [capped]
  omega

theorem capped_mul_capped (n a : Nat) : capped (n * capped a) = capped (n * a) := by
  rcases Nat.le_total a countLimit with h | h
  · rw [capped_of_le h]
  · rw [show capped a = countLimit from Nat.min_eq_right h]
    rcases Nat.eq_zero_or_pos n with rfl | pos
    · rw [Nat.zero_mul, Nat.zero_mul]
    · have one : countLimit ≤ n * countLimit := Nat.le_mul_of_pos_left _ pos
      have two : n * countLimit ≤ n * a := Nat.mul_le_mul_left n h
      simp only [capped]
      omega

theorem capped_eq_zero {n : Nat} : capped n = 0 ↔ n = 0 := by
  have : countLimit ≠ 0 := by decide
  simp only [capped]
  omega

/-! ## What flows outward -/

/-- What `c` primitives in the innermost of some open repeats come to outside all of them, when the
levels of the rest of the program are still to be counted. `last` says what counts there. -/
def flow (last : List (List Outline) → Nat) : Nat → List OpenRepeat → List (List Outline) → Nat
  | c, [], ls => c + last ls
  | c, r :: outer, ls => flow last (r.times * (r.body + c + countAll (ls.headD []))) outer ls.tail

/-- Outside every repeat all the levels left over count. -/
def allLevels (ls : List (List Outline)) : Nat := countAll ls.flatten

/-- In the body of a repeat only the innermost level counts. -/
def oneLevel (ls : List (List Outline)) : Nat := countAll (ls.headD [])

/-- Counting a part of the innermost level is counting it beforehand. -/
def AddsUp (last : List (List Outline) → Nat) : Prop :=
  (∀ o level ls, last ((o :: level) :: ls) = o.count + last (level :: ls)) ∧
    last [[]] = 0 ∧ last [] = 0

theorem addsUp_allLevels : AddsUp allLevels := by
  refine ⟨fun o level ls => ?_, rfl, rfl⟩
  simp only [allLevels, List.flatten_cons, List.cons_append, countAll]

theorem addsUp_oneLevel : AddsUp oneLevel := ⟨fun _ _ _ => rfl, rfl, rfl⟩

section Flow

variable {last : List (List Outline) → Nat} {c d n : Nat} {r : OpenRepeat}
  {outer : List OpenRepeat} {ls : List (List Outline)}

theorem flow_cons_level (h : AddsUp last) (c : Nat) (pending : List OpenRepeat) (o : Outline)
    (level : List Outline) (ls : List (List Outline)) :
    flow last c pending ((o :: level) :: ls) = flow last (c + o.count) pending (level :: ls) := by
  cases pending with
  | nil => simp only [flow, h.1, Nat.add_assoc]
  | cons r outer => simp only [flow, List.headD_cons, List.tail_cons, countAll, Nat.add_assoc]

/-- No level at all counts like one empty level. -/
theorem flow_headD_tail (h : AddsUp last) (c : Nat) (pending : List OpenRepeat)
    (ls : List (List Outline)) :
    flow last c pending (ls.headD [] :: ls.tail) = flow last c pending ls := by
  cases ls with
  | cons level ls => rfl
  | nil =>
    cases pending with
    | nil => simp only [flow, List.headD_nil, List.tail_nil, h.2.1, h.2.2]
    | cons r outer => rfl

/-- Counts that agree up to the limit flow to counts that agree up to the limit. -/
theorem capped_flow_congr (h : capped c = capped d) (x : Nat) (pending : List OpenRepeat)
    (ls : List (List Outline)) :
    capped (x + flow last c pending ls) = capped (x + flow last d pending ls) := by
  induction pending generalizing c d ls with
  | nil =>
    simp only [flow]
    rw [Nat.add_left_comm, ← capped_capped_add, h, capped_capped_add, Nat.add_left_comm]
  | cons r outer ih =>
    refine ih ?_ ls.tail
    rw [← capped_mul_capped, ← capped_mul_capped _ (r.body + d + _)]
    have same : capped (r.body + c + countAll (ls.headD [])) =
        capped (r.body + d + countAll (ls.headD [])) := by
      rw [Nat.add_assoc, Nat.add_left_comm, ← capped_capped_add, h, capped_capped_add,
        Nat.add_left_comm, ← Nat.add_assoc]
    rw [same]

/-- Primitives counted in the body of the innermost repeat are primitives that flow into it. -/
theorem capped_flow_body (x : Nat) :
    capped (x + flow last c ({ r with body := capped (r.body + n) } :: outer) ls) =
      capped (x + flow last (c + n) (r :: outer) ls) := by
  refine capped_flow_congr ?_ x outer ls.tail
  rw [← capped_mul_capped, ← capped_mul_capped _ (r.body + (c + n) + _)]
  have same : capped (capped (r.body + n) + c + countAll (ls.headD [])) =
      capped (r.body + (c + n) + countAll (ls.headD [])) := by
    rw [Nat.add_assoc, capped_capped_add]
    congr 1
    omega
  rw [same]

end Flow

/-! ## Measuring block by block -/

namespace Tally

variable {t : Tally} {b : Block} {s n : Nat}

/-- Takes in blocks that stand from a position on. -/
def run (t : Tally) (i : Nat) (bs : List Block) : Tally :=
  (bs.zipIdx i).foldl (fun t (b, i) => t.take b i) t

@[simp] theorem run_nil (t : Tally) (i : Nat) : t.run i [] = t := rfl

@[simp] theorem run_cons (t : Tally) (i : Nat) (b : Block) (bs : List Block) :
    t.run i (b :: bs) = (t.take b i).run (i + 1) bs := rfl

theorem run_append (t : Tally) (i : Nat) (as bs : List Block) :
    t.run i (as ++ bs) = (t.run i as).run (i + as.length) bs := by
  simp only [run, List.zipIdx_append, List.foldl_append]

/-- Every count is within the limit. -/
def Within (t : Tally) : Prop := t.total ≤ countLimit ∧ ∀ r ∈ t.pending, r.body ≤ countLimit

theorem Within.add (h : t.Within) (n : Nat) : (t.add n).Within := by
  obtain ⟨total, bodies⟩ := h
  rw [Tally.add]
  split
  · next none => exact ⟨capped_le _, by simp [none]⟩
  · next inner outer found =>
    refine ⟨total, fun r hr => ?_⟩
    rcases List.mem_cons.1 hr with rfl | hr
    · exact capped_le _
    · exact bodies r (found ▸ List.mem_cons_of_mem inner hr)

theorem Within.close (h : t.Within) : t.close.Within := by
  rw [Tally.close]
  split
  · exact h
  · next inner outer found =>
    have left : Within { t with
        pending := outer, bodies := (inner.start, inner.body) :: t.bodies } :=
      ⟨h.1, fun r hr => h.2 r (found ▸ List.mem_cons_of_mem inner hr)⟩
    exact left.add _

theorem Within.take (h : t.Within) (b : Block) (i : Nat) : (t.take b i).Within := by
  rw [Tally.take]
  split
  · refine ⟨h.1, fun r hr => ?_⟩
    rcases List.mem_cons.1 hr with rfl | hr
    · exact Nat.zero_le _
    · exact h.2 r hr
  · exact h.close
  · exact h.add 1

theorem Within.run (h : t.Within) (i : Nat) (bs : List Block) : (t.run i bs).Within := by
  induction bs generalizing t i with
  | nil => exact h
  | cons b bs ih => exact ih (h.take b i) (i + 1)

/-! ## Where the open repeats start -/

/-- Where the open repeats start, innermost first. -/
def starts (t : Tally) : List Nat := t.pending.map OpenRepeat.start

theorem starts_add (t : Tally) (n : Nat) : (t.add n).starts = t.starts := by
  rw [Tally.add]
  split
  · rfl
  · next found => simp only [starts, found, List.map_cons]

theorem bodies_add (t : Tally) (n : Nat) : (t.add n).bodies = t.bodies := by
  rw [Tally.add]
  split <;> rfl

theorem starts_close (t : Tally) : t.close.starts = t.starts.tail := by
  rw [Tally.close]
  split
  · next none => simp only [starts, none, List.map_nil, List.tail_nil]
  · next found =>
    rw [starts_add]
    simp only [starts, found, List.map_cons, List.tail_cons]

theorem length_pending_close (t : Tally) : t.close.pending.length = t.pending.length - 1 := by
  have := congrArg List.length (starts_close t)
  simpa only [starts, List.length_map, List.length_tail] using this

/-- Taking in a block opens no repeat at another position. -/
theorem not_mem_starts_take {i : Nat} (h : s ∉ t.starts) (b : Block) (other : s ≠ i) :
    s ∉ (t.take b i).starts := by
  rw [Tally.take]
  split
  · exact List.not_mem_cons_of_ne_of_not_mem other h
  · rw [starts_close]
    exact fun mem => h (List.mem_of_mem_tail mem)
  · rwa [starts_add]

/-- Before a position is taken in, no repeat that is open starts there. -/
theorem not_mem_starts_run {i : Nat} (h : s ∉ t.starts) (bs : List Block)
    (later : i + bs.length ≤ s) : s ∉ (t.run i bs).starts := by
  induction bs generalizing t i with
  | nil => exact h
  | cons b bs ih =>
    rw [List.length_cons] at later
    exact ih (not_mem_starts_take h b (by omega)) (by omega)

/-! ## What is counted outside -/

/-- What a tally comes to outside every repeat, when `c` more primitives flow into the innermost
open repeat and levels are still to be counted. -/
def outside (t : Tally) (c : Nat) (ls : List (List Outline)) : Nat :=
  t.total + flow allLevels c t.pending ls

theorem capped_outside_add (c : Nat) (ls : List (List Outline)) :
    capped ((t.add n).outside c ls) = capped (t.outside (c + n) ls) := by
  simp only [outside, Tally.add]
  split
  · next none =>
    simp only [none, flow]
    rw [capped_capped_add]
    congr 1
    omega
  · next inner outer found =>
    simp only [found]
    exact capped_flow_body t.total

theorem capped_outside_close (ls : List (List Outline)) :
    capped (t.close.outside 0 ls) = capped (t.outside 0 ([] :: ls)) := by
  rw [Tally.close]
  split
  · next none =>
    simp only [outside, none, flow, allLevels, List.flatten_cons, List.nil_append]
  · next inner outer found =>
    rw [capped_outside_add]
    simp only [outside, found, flow]
    refine capped_flow_congr ?_ t.total outer ls
    simp only [Nat.zero_add, List.headD_cons, countAll, Nat.add_zero, capped, Nat.min_assoc,
      Nat.min_self]

theorem total_closeAll (h : t.Within) : t.closeAll.total = capped (t.outside 0 []) := by
  rw [closeAll]
  generalize depth : t.pending.length = k
  induction k generalizing t with
  | zero =>
    rw [List.length_eq_zero_iff] at depth
    simp [closeMany, outside, depth, flow, allLevels, countAll, capped_of_le h.1]
  | succ k ih =>
    have shallower : t.close.pending.length = k := by
      rw [length_pending_close, depth, Nat.add_sub_cancel]
    rw [closeMany, ih h.close shallower, capped_outside_close, outside, outside]
    exact congrArg (fun n => capped (t.total + n)) (flow_headD_tail addsUp_allLevels 0 _ [])

/-- Whatever is still to be taken in counts by its levels. -/
theorem total_run_closeAll (h : t.Within) (i : Nat) (bs : List Block) :
    (t.run i bs).closeAll.total = capped (t.outside 0 (levels i bs)) := by
  induction bs generalizing t i with
  | nil =>
    rw [run_nil, total_closeAll h, levels, outside, outside,
      ← flow_headD_tail addsUp_allLevels 0 t.pending []]
    rfl
  | cons b bs ih =>
    rw [run_cons, ih (h.take b i) (i + 1)]
    cases kind : b.kind with
    | repeatStart =>
      rw [levels_repeatStart kind]
      simp only [take, kind, outside]
      rw [flow_cons_level addsUp_allLevels, flow_headD_tail addsUp_allLevels, flow]
      simp only [Nat.zero_add, count]
    | repeatEnd =>
      rw [levels_repeatEnd kind]
      simp only [take, kind]
      exact capped_outside_close _
    | _ =>
      rw [levels_primitive (by rw [kind]; rfl)]
      simp only [take, kind]
      rw [capped_outside_add, outside, outside, flow_cons_level addsUp_allLevels,
        flow_headD_tail addsUp_allLevels, count]

/-! ## What is counted in a body -/

/-- The repeat that starts at a position has been measured, and is not open any more. -/
def Settled (t : Tally) (s n : Nat) : Prop := t.bodies.lookup s = some n ∧ s ∉ t.starts

/-- The repeat that starts at a position is open, and its body comes to `n`, up to the limit, when
`c` more primitives flow into the innermost open repeat and levels are still to be counted. -/
def Expects (t : Tally) (s n c : Nat) (ls : List (List Outline)) : Prop :=
  ∃ above r below, t.pending = above ++ r :: below ∧ r.start = s ∧
    s ∉ below.map OpenRepeat.start ∧ capped (r.body + flow oneLevel c above ls) = capped n

theorem Settled.add (h : t.Settled s n) (m : Nat) : (t.add m).Settled s n := by
  rwa [Settled, bodies_add, starts_add]

theorem Settled.close (h : t.Settled s n) : t.close.Settled s n := by
  refine ⟨?_, by rw [starts_close]; exact fun mem => h.2 (List.mem_of_mem_tail mem)⟩
  rw [Tally.close]
  split
  · exact h.1
  · next inner outer found =>
    have other : s ≠ inner.start := by
      rintro rfl
      exact h.2 (List.mem_map_of_mem (found ▸ List.mem_cons_self))
    rw [bodies_add, List.lookup_cons, beq_eq_false_iff_ne.2 other]
    exact h.1

theorem Settled.take (h : t.Settled s n) (b : Block) {i : Nat} (before : s < i) :
    (t.take b i).Settled s n := by
  refine ⟨?_, not_mem_starts_take h.2 b (Nat.ne_of_lt before)⟩
  rw [Tally.take]
  split
  · exact h.1
  · exact h.close.1
  · exact (h.add 1).1

theorem Settled.run (h : t.Settled s n) {i : Nat} (before : s < i) (bs : List Block) :
    (t.run i bs).Settled s n := by
  induction bs generalizing t i with
  | nil => exact h
  | cons b bs ih => exact ih (h.take b before) (Nat.lt_succ_of_lt before)

theorem Settled.closeMany (h : t.Settled s n) (k : Nat) : (Tally.closeMany k t).Settled s n := by
  induction k generalizing t with
  | zero => exact h
  | succ k ih => exact ih h.close

/-- Primitives counted now need not flow in any more. -/
theorem Expects.add {c m : Nat} {ls : List (List Outline)} (h : t.Expects s n (c + m) ls) :
    (t.add m).Expects s n c ls := by
  obtain ⟨above, r, below, pending, start, others, count⟩ := h
  rw [Tally.add]
  cases above with
  | nil =>
    rw [pending]
    refine ⟨[], { r with body := capped (r.body + m) }, below, rfl, start, others, ?_⟩
    rw [← count, capped_capped_add]
    simp only [flow]
    congr 1
    omega
  | cons a above =>
    rw [pending]
    refine ⟨{ a with body := capped (a.body + m) } :: above, r, below, rfl, start, others, ?_⟩
    rw [← count]
    exact capped_flow_body r.body

/-- A closing bracket measures the innermost repeat and ends the innermost level. -/
theorem Expects.close {ls : List (List Outline)} (h : t.Expects s n 0 ([] :: ls))
    (within : t.Within) : t.close.Settled s (capped n) ∨ t.close.Expects s n 0 ls := by
  obtain ⟨above, r, below, pending, start, others, count⟩ := h
  rw [Tally.close, pending]
  cases above with
  | nil =>
    have bodyWithin : r.body ≤ countLimit := within.2 r (pending ▸ List.mem_cons_self)
    have measured : Settled { t with
        pending := below, bodies := (r.start, r.body) :: t.bodies } s (capped n) := by
      refine ⟨?_, others⟩
      rw [← count, start, List.lookup_cons, beq_self_eq_true]
      exact congrArg some (capped_of_le bodyWithin).symm
    exact .inl (measured.add _)
  | cons a above =>
    refine .inr (Expects.add ⟨above, r, below, rfl, start, others, ?_⟩)
    rw [← count]
    refine capped_flow_congr ?_ r.body above ls
    simp only [Nat.zero_add, List.headD_cons, countAll, Nat.add_zero, capped, Nat.min_assoc,
      Nat.min_self]

theorem Expects.closeAll (h : t.Expects s n 0 []) (within : t.Within) :
    t.closeAll.Settled s (capped n) := by
  rw [Tally.closeAll]
  generalize depth : t.pending.length = k
  induction k generalizing t with
  | zero =>
    obtain ⟨above, r, below, pending, -⟩ := h
    simp [pending] at depth
  | succ k ih =>
    have shallower : t.close.pending.length = k := by
      rw [length_pending_close, depth, Nat.add_sub_cancel]
    have bracket : t.Expects s n 0 [[]] := by
      obtain ⟨above, r, below, pending, start, others, count⟩ := h
      refine ⟨above, r, below, pending, start, others, ?_⟩
      rw [← count]
      exact congrArg (fun n => capped (r.body + n)) (flow_headD_tail addsUp_oneLevel 0 above [])
    rw [Tally.closeMany]
    rcases bracket.close within with settled | expects
    · exact settled.closeMany k
    · exact ih expects within.close shallower

theorem Expects.run_closeAll {i : Nat} {bs : List Block} (h : t.Expects s n 0 (levels i bs))
    (within : t.Within) (before : s < i) : (t.run i bs).closeAll.Settled s (capped n) := by
  induction bs generalizing t i with
  | nil =>
    refine Expects.closeAll ?_ within
    obtain ⟨above, r, below, pending, start, others, count⟩ := h
    refine ⟨above, r, below, pending, start, others, ?_⟩
    rw [← count]
    exact congrArg (fun n => capped (r.body + n))
      (flow_headD_tail addsUp_oneLevel 0 above []).symm
  | cons b bs ih =>
    rw [run_cons]
    cases kind : b.kind with
    | repeatStart =>
      refine ih ?_ (within.take b i) (Nat.lt_succ_of_lt before)
      obtain ⟨above, r, below, pending, start, others, count⟩ := h
      rw [levels_repeatStart kind, flow_cons_level addsUp_oneLevel,
        flow_headD_tail addsUp_oneLevel] at count
      simp only [take, kind]
      refine ⟨⟨i, b.iterations, 0⟩ :: above, r, below, by rw [pending]; rfl, start, others, ?_⟩
      simpa only [flow, Nat.zero_add, Outline.count] using count
    | repeatEnd =>
      rw [levels_repeatEnd kind] at h
      simp only [take, kind]
      -- either this bracket closes the repeat that is measured, or one within it
      rcases h.close within with settled | expects
      · exact (settled.run (Nat.lt_succ_of_lt before) bs).closeMany _
      · exact ih expects within.close (Nat.lt_succ_of_lt before)
    | _ =>
      refine ih ?_ (within.take b i) (Nat.lt_succ_of_lt before)
      obtain ⟨above, r, below, pending, start, others, count⟩ := h
      rw [levels_primitive (by rw [kind]; rfl), flow_cons_level addsUp_oneLevel,
        flow_headD_tail addsUp_oneLevel] at count
      simp only [take, kind]
      exact Expects.add ⟨above, r, below, pending, start, others, count⟩

end Tally

/-- **The length of a program** is the exact count of its outline, up to the limit. -/
theorem unrolledLength_eq (p : Program) : p.unrolledLength = capped p.exactLength := by
  have none : ({} : Tally).Within := ⟨Nat.zero_le _, by simp⟩
  rw [unrolledLength, tally]
  refine (Tally.total_run_closeAll none 0 p.blocks).trans ?_
  simp only [Tally.outside, flow, allLevels, Nat.zero_add, exactLength, outline]

/-- **The length of a body** is the exact count of its level, up to the limit. -/
theorem bodyLengths_repeatStart {p : Program} {i : Nat} {b : Block} (h : p.blocks[i]? = some b)
    (kind : b.kind = .repeatStart) :
    p.bodyLengths[i]? = some (capped (countAll (p.levelAt (i + 1)))) := by
  have bound := lt_length_of_getElem? h
  have split : p.blocks = p.blocks.take i ++ b :: p.blocks.drop (i + 1) := by
    rw [← drop_eq_cons h, List.take_append_drop]
  have reached : (p.blocks.take i).length = i := by
    rw [List.length_take]
    exact Nat.min_eq_left (Nat.le_of_lt bound)
  have within : ({} : Tally).Within := ⟨Nat.zero_le _, by simp⟩
  have fresh : i ∉ (Tally.run {} 0 (p.blocks.take i)).starts :=
    Tally.not_mem_starts_run (by simp [Tally.starts]) _ (by omega)
  have settled : p.tally.Settled i (capped (countAll (p.levelAt (i + 1)))) := by
    have run : p.tally = (Tally.run {} 0 p.blocks).closeAll := rfl
    rw [run, split, Tally.run_append, Tally.run_cons, Nat.zero_add, reached]
    have taken := (within.run 0 (p.blocks.take i)).take b i
    refine Tally.Expects.run_closeAll ?_ taken i.lt_succ_self
    simp only [Tally.take, kind]
    refine ⟨[], ⟨i, b.iterations, 0⟩, _, rfl, rfl, fresh, ?_⟩
    simp only [flow, oneLevel, Nat.zero_add, levelAt, levelsFrom]
  simp only [bodyLengths, List.getElem?_map, List.getElem?_range bound, Option.map_some,
    settled.1, Option.getD_some]

end Labyrinth.Program
