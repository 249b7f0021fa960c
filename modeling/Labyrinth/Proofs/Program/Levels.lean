import Labyrinth.Program.Nesting
import Labyrinth.Program.Outline

/-!
# Levels and depth

The outline of a program is read from its last block to its first, while brackets are matched from
the first to the last. This file ties the two together.

**The level of a position** (`levelAt`). The outline from the position up to the bracket that closes
what is open there, which stands at `levelEnd`. If there is no such bracket the level goes on to the
end of the program.

**Equations.** What `levelAt`, `restAt` and `levelEnd` are at a primitive block, at a closing
bracket and at a repeat: a repeat takes the level behind its bracket for its body, and goes on
behind the bracket that closes that level.

Main statements: `drop_levels`, the levels left over are those behind the closing bracket;
`matchingEnd?_eq_closingByDepth?`, the stack and the depth counter find the same partner.
-/

namespace Labyrinth

open Outline

namespace Program

/-! ## The depth counter -/

theorem zeroDepth?_bounds {d i j : Nat} {bs : List Block} (h : zeroDepth? d i bs = some j) :
    i ≤ j ∧ j < i + bs.length := by
  induction bs generalizing d i with
  | nil => simp [zeroDepth?] at h
  | cons b rest ih =>
    rw [List.length_cons]
    cases kind : b.kind with
    | repeatStart =>
      have := ih (by simpa only [zeroDepth?, kind] using h)
      omega
    | repeatEnd =>
      simp only [zeroDepth?, kind] at h
      split at h
      · cases h
        omega
      · have := ih h
        omega
    | _ =>
      have := ih (by simpa only [zeroDepth?, kind] using h)
      omega

/-- To come down from a sum, the counter comes down by one summand first and then by the other. -/
theorem zeroDepth?_add {c : Nat} (hc : 0 < c) (d i : Nat) (bs : List Block) :
    zeroDepth? (c + (d + 1)) i bs =
      (zeroDepth? c i bs).bind fun j => zeroDepth? (d + 1) (j + 1) (bs.drop (j + 1 - i)) := by
  induction bs generalizing c i with
  | nil => simp [zeroDepth?]
  | cons b rest ih =>
    -- What is left behind a bracket of `rest` is the same seen from `b`.
    have shift : ∀ {c : Nat}, (zeroDepth? c (i + 1) rest).bind
        (fun j => zeroDepth? (d + 1) (j + 1) (rest.drop (j + 1 - (i + 1)))) =
        (zeroDepth? c (i + 1) rest).bind
          fun j => zeroDepth? (d + 1) (j + 1) ((b :: rest).drop (j + 1 - i)) := by
      intro c
      cases found : zeroDepth? c (i + 1) rest with
      | none => rfl
      | some j =>
        have := (zeroDepth?_bounds found).1
        rw [Option.bind_some, Option.bind_some, show j + 1 - i = j + 1 - (i + 1) + 1 by omega,
          List.drop_succ_cons]
    cases kind : b.kind with
    | repeatStart =>
      simp only [zeroDepth?, kind]
      rw [show c + (d + 1) + 1 = c + 1 + (d + 1) by omega, ih (by omega), shift]
    | repeatEnd =>
      simp only [zeroDepth?, kind]
      rw [if_neg (by omega)]
      split
      · next one =>
        subst one
        rw [Option.bind_some, show i + 1 - i = 0 + 1 by omega, List.drop_succ_cons,
          List.drop_zero, show 1 + (d + 1) - 1 = d + 1 by omega]
      · next more =>
        rw [show c + (d + 1) - 1 = c - 1 + (d + 1) by omega, ih (by omega), shift]
    | _ =>
      simp only [zeroDepth?, kind]
      rw [ih hc, shift]

end Program

namespace Outline

theorem levels_ne_nil (i : Nat) (bs : List Block) : levels i bs ≠ [] := by
  induction bs generalizing i with
  | nil => simp [levels]
  | cons b rest ih =>
    have later := ih (i + 1)
    rw [levels]
    split <;> simp_all

theorem levels_eq_cons (i : Nat) (bs : List Block) :
    levels i bs = (levels i bs).headD [] :: (levels i bs).tail := by
  cases h : levels i bs with
  | nil => exact absurd h (levels_ne_nil i bs)
  | cons level outer => rfl

theorem levels_primitive {i : Nat} {b : Block} {rest : List Block} (h : b.kind.isPrimitive) :
    levels i (b :: rest) =
      (primitive i :: (levels (i + 1) rest).headD []) :: (levels (i + 1) rest).tail := by
  have split := levels_eq_cons (i + 1) rest
  cases kind : b.kind <;> simp only [kind, BlockKind.isPrimitive, Bool.false_eq_true] at h <;>
    simp only [levels, kind] <;> rw [split] <;> rfl

theorem levels_repeatEnd {i : Nat} {b : Block} {rest : List Block} (h : b.kind = .repeatEnd) :
    levels i (b :: rest) = [] :: levels (i + 1) rest := by
  simp only [levels, h]

/-- A repeat takes the innermost level for its body and stands in the level around it. -/
theorem levels_repeatStart {i : Nat} {b : Block} {rest : List Block}
    (h : b.kind = .repeatStart) :
    levels i (b :: rest) =
      (loop i b.iterations ((levels (i + 1) rest).headD []) ::
        (levels (i + 1) rest).tail.headD []) :: (levels (i + 1) rest).tail.tail := by
  have split := levels_eq_cons (i + 1) rest
  simp only [levels, h]
  rw [split]
  cases (levels (i + 1) rest).tail <;> rfl

/-- **The levels left over** after so many are closed are those behind the last closing bracket. -/
theorem drop_levels (d i : Nat) (bs : List Block) :
    (levels i bs).drop (d + 1) =
      match Program.zeroDepth? (d + 1) i bs with
      | some j => levels (j + 1) (bs.drop (j + 1 - i))
      | none => [] := by
  induction bs generalizing d i with
  | nil => simp [levels, Program.zeroDepth?]
  | cons b rest ih =>
    -- the hypothesis for `rest`, with positions counted from `b` on
    have shift : ∀ d : Nat, (levels (i + 1) rest).drop (d + 1) =
        match Program.zeroDepth? (d + 1) (i + 1) rest with
        | some j => levels (j + 1) ((b :: rest).drop (j + 1 - i))
        | none => [] := by
      intro d
      rw [ih]
      cases found : Program.zeroDepth? (d + 1) (i + 1) rest with
      | none => rfl
      | some j =>
        have := (Program.zeroDepth?_bounds found).1
        simp only [show j + 1 - i = j + 1 - (i + 1) + 1 by omega, List.drop_succ_cons]
    cases kind : b.kind with
    | repeatStart =>
      rw [levels_repeatStart kind]
      simp only [Program.zeroDepth?, kind]
      rw [← shift (d + 1), List.drop_succ_cons, List.drop_tail, List.drop_tail]
    | repeatEnd =>
      rw [levels_repeatEnd kind, List.drop_succ_cons]
      simp only [Program.zeroDepth?, kind]
      cases d with
      | zero => simp
      | succ d => rw [if_neg (by omega), Nat.add_sub_cancel, ← shift d]
    | _ =>
      rw [levels_primitive (by rw [kind]; rfl), List.drop_succ_cons, List.drop_tail]
      simp only [Program.zeroDepth?, kind]
      exact shift d

end Outline

/-! ## The level of a position -/

namespace Program

variable {p : Program} {i : Nat} {b : Block}

/-- The levels of the part of a program that stands from a position on, the innermost first. -/
def levelsFrom (p : Program) (i : Nat) : List (List Outline) := levels i (p.blocks.drop i)

/-- The outline from a position up to the bracket that closes the level there. -/
def levelAt (p : Program) (i : Nat) : List Outline := (p.levelsFrom i).headD []

/-- The outline from a position on, all the levels after each other. -/
def restAt (p : Program) (i : Nat) : List Outline := (p.levelsFrom i).flatten

/-- The position of the bracket that closes the level of a position, or the length of the program
if there is none. -/
def levelEnd (p : Program) (i : Nat) : Nat := (zeroDepth? 1 i (p.blocks.drop i)).getD p.length

theorem drop_eq_cons (h : p.blocks[i]? = some b) :
    p.blocks.drop i = b :: p.blocks.drop (i + 1) := by
  obtain ⟨bound, rfl⟩ := List.getElem?_eq_some_iff.1 h
  exact List.drop_eq_getElem_cons bound

theorem lt_length_of_getElem? (h : p.blocks[i]? = some b) : i < p.length :=
  (List.getElem?_eq_some_iff.1 h).1

theorem levelsFrom_of_length_le (h : p.length ≤ i) : p.levelsFrom i = [[]] := by
  rw [levelsFrom, List.drop_eq_nil_of_le h, levels]

@[simp] theorem levelAt_of_length_le (h : p.length ≤ i) : p.levelAt i = [] := by
  rw [levelAt, levelsFrom_of_length_le h]
  rfl

@[simp] theorem restAt_of_length_le (h : p.length ≤ i) : p.restAt i = [] := by
  rw [restAt, levelsFrom_of_length_le h]
  rfl

@[simp] theorem levelEnd_of_length_le (h : p.length ≤ i) : p.levelEnd i = p.length := by
  rw [levelEnd, List.drop_eq_nil_of_le h]
  rfl

theorem levelEnd_le_length (p : Program) (i : Nat) : p.levelEnd i ≤ p.length := by
  rw [levelEnd]
  cases found : zeroDepth? 1 i (p.blocks.drop i) with
  | none => exact Nat.le_refl _
  | some j =>
    have := zeroDepth?_bounds found
    rw [List.length_drop] at this
    simp only [Option.getD_some, length]
    omega

theorem le_levelEnd (h : i ≤ p.length) : i ≤ p.levelEnd i := by
  rw [levelEnd]
  cases found : zeroDepth? 1 i (p.blocks.drop i) with
  | none => exact h
  | some j => exact (zeroDepth?_bounds found).1

/-- The level of a position, and then what stands behind the bracket that closes it. -/
theorem levelsFrom_tail (p : Program) (i : Nat) :
    (p.levelsFrom i).tail =
      match zeroDepth? 1 i (p.blocks.drop i) with
      | some j => p.levelsFrom (j + 1)
      | none => [] := by
  rw [← List.drop_one, levelsFrom, drop_levels 0]
  cases found : zeroDepth? 1 i (p.blocks.drop i) with
  | none => rfl
  | some j =>
    have := (zeroDepth?_bounds found).1
    simp only [levelsFrom, List.drop_drop, show i + (j + 1 - i) = j + 1 by omega]

theorem levelsFrom_eq_cons (p : Program) (i : Nat) :
    p.levelsFrom i = p.levelAt i :: (p.levelsFrom i).tail := levels_eq_cons ..

/-! ## Equations -/

theorem levelsFrom_primitive (h : p.blocks[i]? = some b) (prim : b.kind.isPrimitive) :
    p.levelsFrom i = (primitive i :: p.levelAt (i + 1)) :: (p.levelsFrom (i + 1)).tail := by
  rw [levelsFrom, drop_eq_cons h, levels_primitive prim]
  rfl

theorem levelAt_primitive (h : p.blocks[i]? = some b) (prim : b.kind.isPrimitive) :
    p.levelAt i = primitive i :: p.levelAt (i + 1) := by
  rw [levelAt, levelsFrom_primitive h prim]
  rfl

theorem restAt_primitive (h : p.blocks[i]? = some b) (prim : b.kind.isPrimitive) :
    p.restAt i = primitive i :: p.restAt (i + 1) := by
  rw [restAt, levelsFrom_primitive h prim, restAt, levelsFrom_eq_cons p (i + 1)]
  rfl

theorem levelEnd_primitive (h : p.blocks[i]? = some b) (prim : b.kind.isPrimitive) :
    p.levelEnd i = p.levelEnd (i + 1) := by
  rw [levelEnd, drop_eq_cons h]
  cases kind : b.kind <;> simp only [kind, BlockKind.isPrimitive, Bool.false_eq_true] at prim <;>
    simp only [zeroDepth?, kind] <;> rfl

theorem levelsFrom_repeatEnd (h : p.blocks[i]? = some b) (kind : b.kind = .repeatEnd) :
    p.levelsFrom i = [] :: p.levelsFrom (i + 1) := by
  rw [levelsFrom, drop_eq_cons h, levels_repeatEnd kind]
  rfl

theorem levelAt_repeatEnd (h : p.blocks[i]? = some b) (kind : b.kind = .repeatEnd) :
    p.levelAt i = [] := by
  rw [levelAt, levelsFrom_repeatEnd h kind]
  rfl

theorem restAt_repeatEnd (h : p.blocks[i]? = some b) (kind : b.kind = .repeatEnd) :
    p.restAt i = p.restAt (i + 1) := by
  rw [restAt, levelsFrom_repeatEnd h kind]
  rfl

theorem levelEnd_repeatEnd (h : p.blocks[i]? = some b) (kind : b.kind = .repeatEnd) :
    p.levelEnd i = i := by
  rw [levelEnd, drop_eq_cons h]
  simp only [zeroDepth?, kind, if_true, Option.getD_some]

theorem levelsFrom_repeatStart (h : p.blocks[i]? = some b) (kind : b.kind = .repeatStart) :
    p.levelsFrom i =
      (loop i b.iterations (p.levelAt (i + 1)) :: p.levelAt (p.levelEnd (i + 1) + 1)) ::
        (p.levelsFrom (p.levelEnd (i + 1) + 1)).tail := by
  have behind := levelsFrom_tail p (i + 1)
  rw [levelsFrom, drop_eq_cons h, levels_repeatStart kind]
  change (loop i b.iterations (p.levelAt (i + 1)) :: (p.levelsFrom (i + 1)).tail.headD []) ::
    (p.levelsFrom (i + 1)).tail.tail = _
  cases found : zeroDepth? 1 (i + 1) (p.blocks.drop (i + 1)) with
  | none =>
    have last : p.levelEnd (i + 1) = p.length := by rw [levelEnd, found, Option.getD_none]
    rw [behind, found, last, levelAt_of_length_le (Nat.le_succ p.length),
      levelsFrom_of_length_le (Nat.le_succ p.length)]
    rfl
  | some j =>
    have last : p.levelEnd (i + 1) = j := by rw [levelEnd, found, Option.getD_some]
    rw [behind, found, last]
    rfl

theorem levelAt_repeatStart (h : p.blocks[i]? = some b) (kind : b.kind = .repeatStart) :
    p.levelAt i =
      loop i b.iterations (p.levelAt (i + 1)) :: p.levelAt (p.levelEnd (i + 1) + 1) := by
  rw [levelAt, levelsFrom_repeatStart h kind]
  rfl

theorem restAt_repeatStart (h : p.blocks[i]? = some b) (kind : b.kind = .repeatStart) :
    p.restAt i =
      loop i b.iterations (p.levelAt (i + 1)) :: p.restAt (p.levelEnd (i + 1) + 1) := by
  rw [restAt, levelsFrom_repeatStart h kind, restAt,
    levelsFrom_eq_cons p (p.levelEnd (i + 1) + 1)]
  rfl

theorem levelEnd_repeatStart (h : p.blocks[i]? = some b) (kind : b.kind = .repeatStart) :
    p.levelEnd i = p.levelEnd (p.levelEnd (i + 1) + 1) := by
  have two := zeroDepth?_add Nat.one_pos 0 (i + 1) (p.blocks.drop (i + 1))
  rw [levelEnd, drop_eq_cons h]
  simp only [zeroDepth?, kind]
  rw [two]
  cases found : zeroDepth? 1 (i + 1) (p.blocks.drop (i + 1)) with
  | none =>
    have behind : p.levelEnd (i + 1) = p.length := by rw [levelEnd, found, Option.getD_none]
    rw [behind, levelEnd_of_length_le (Nat.le_succ p.length)]
    rfl
  | some j =>
    have behind : p.levelEnd (i + 1) = j := by rw [levelEnd, found, Option.getD_some]
    have := (zeroDepth?_bounds found).1
    rw [behind, Option.bind_some, levelEnd, List.drop_drop,
      show i + 1 + (j + 1 - (i + 1)) = j + 1 by omega]

/-! ## The stack and the depth counter -/

/-- A repeat on the stack is closed where the depth, counted from as many brackets as lie above it
on the stack, comes down past it. -/
theorem lookup_closings_of_open {s i : Nat} (above below : List Nat) (bs : List Block)
    (fresh : s ∉ above) (before : s < i) :
    (closings i (above ++ s :: below) bs).lookup s = zeroDepth? (above.length + 1) i bs := by
  induction bs generalizing i above with
  | nil => rfl
  | cons b rest ih =>
    cases kind : b.kind with
    | repeatStart =>
      have fresh' : s ∉ i :: above := by
        simp only [List.mem_cons, not_or]
        exact ⟨by omega, fresh⟩
      simpa only [closings, zeroDepth?, kind, List.cons_append, List.length_cons]
        using ih (i :: above) fresh' (by omega)
    | repeatEnd =>
      cases above with
      | nil => simp [closings, zeroDepth?, kind]
      | cons a above =>
        rw [List.mem_cons, not_or] at fresh
        have other : (s == a) = false := by simpa using fresh.1
        simp only [closings, zeroDepth?, kind, List.cons_append, List.lookup_cons, other,
          List.length_cons]
        rw [if_neg (by omega)]
        exact ih above fresh.2 (by omega)
    | _ => simpa only [closings, zeroDepth?, kind] using ih above fresh (by omega)

/-- A position gone by that is not on the stack is closed nowhere. -/
theorem lookup_closings_of_not_open {s i : Nat} {starts : List Nat} (bs : List Block)
    (fresh : s ∉ starts) (before : s < i) : (closings i starts bs).lookup s = none := by
  induction bs generalizing i starts with
  | nil => rfl
  | cons b rest ih =>
    cases kind : b.kind with
    | repeatStart =>
      have fresh' : s ∉ i :: starts := by
        simp only [List.mem_cons, not_or]
        exact ⟨by omega, fresh⟩
      simpa only [closings, kind] using ih fresh' (by omega)
    | repeatEnd =>
      cases starts with
      | nil => simpa only [closings, kind] using ih fresh (by omega)
      | cons a starts =>
        rw [List.mem_cons, not_or] at fresh
        have other : (s == a) = false := by simpa using fresh.1
        simp only [closings, kind, List.lookup_cons, other]
        exact ih fresh.2 (by omega)
    | _ => simpa only [closings, kind] using ih fresh (by omega)

/-- What a position yet to come is closed by does not depend on the stack. -/
theorem lookup_closings_of_le {s i : Nat} {starts : List Nat} (bs : List Block)
    (old : ∀ a ∈ starts, a < i) (later : i ≤ s) :
    (closings i starts bs).lookup s =
      match bs.drop (s - i) with
      | ⟨_, .repeatStart, _⟩ :: rest => zeroDepth? 1 (s + 1) rest
      | _ => none := by
  induction bs generalizing i starts with
  | nil => simp [closings]
  | cons b rest ih =>
    rcases Nat.eq_or_lt_of_le later with rfl | after
    · -- the position itself: a repeat that starts here is the top of the stack from now on
      have fresh : i ∉ starts := fun h => Nat.lt_irrefl i (old i h)
      rw [Nat.sub_self, List.drop_zero]
      obtain ⟨id, kind, count⟩ := b
      cases kind with
      | repeatStart =>
        simpa only [closings, List.nil_append, List.length_nil] using
          lookup_closings_of_open [] starts rest (by simp) i.lt_succ_self
      | repeatEnd =>
        cases starts with
        | nil => exact lookup_closings_of_not_open rest fresh i.lt_succ_self
        | cons a starts =>
          rw [List.mem_cons, not_or] at fresh
          have other : (i == a) = false := by simpa using fresh.1
          simp only [closings, List.lookup_cons, other]
          exact lookup_closings_of_not_open rest fresh.2 i.lt_succ_self
      | _ => exact lookup_closings_of_not_open rest fresh i.lt_succ_self
    · have old' : ∀ a ∈ starts, a < i + 1 := fun a h => Nat.lt_succ_of_lt (old a h)
      rw [show s - i = s - (i + 1) + 1 by omega, List.drop_succ_cons]
      cases kind : b.kind with
      | repeatStart =>
        have pushed : ∀ a ∈ i :: starts, a < i + 1 := by
          rintro a (_ | ⟨_, h⟩)
          · exact i.lt_succ_self
          · exact old' a h
        simpa only [closings, kind] using ih pushed after
      | repeatEnd =>
        cases starts with
        | nil => simpa only [closings, kind] using ih old' after
        | cons a starts =>
          have := old a List.mem_cons_self
          have other : (s == a) = false := by
            rw [beq_eq_false_iff_ne]
            omega
          simp only [closings, kind, List.lookup_cons, other]
          exact ih (fun c h => old' c (List.mem_cons_of_mem a h)) after
      | _ => simpa only [closings, kind] using ih old' after

/-- **The stack and the depth counter agree** on the partner of every bracket. -/
theorem matchingEnd?_eq_closingByDepth? (p : Program) (i : Nat) :
    p.matchingEnd? i = p.closingByDepth? i :=
  lookup_closings_of_le p.blocks (by simp) i.zero_le

/-- A repeat ends where the level behind its opening bracket does. -/
theorem matchingEnd?_getD (h : p.blocks[i]? = some b) (kind : b.kind = .repeatStart) :
    (p.matchingEnd? i).getD p.length = p.levelEnd (i + 1) := by
  rw [matchingEnd?_eq_closingByDepth?, closingByDepth?, drop_eq_cons h]
  obtain ⟨id, kind', count⟩ := b
  cases kind
  rfl

end Program

end Labyrinth
