import Labyrinth.Program.Nesting
import Labyrinth.Proofs.Program.Levels

/-!
# Programs written out as blocks

The outline of a program speaks of positions, and these change when blocks are put in or taken out.
Here a list of blocks is written out as blocks.

**Levels** (`Program.writtenLevels`). As those of the outline, with each repeat written out. One
more block in front changes them as `Block.onto` says, so that the levels of a list are a fold over
it and what stands in front of a part of it is of no concern (`writtenLevels_append`).

Main statements: `map_expansion`, the blocks at the positions of the expansion are the program
written out; `writtenLevels_repeat`, a repeat of balanced blocks is written out like as many copies
of the blocks.
-/

namespace Labyrinth

open Outline

/-- The levels of some blocks with one more block in front. -/
def Block.onto (b : Block) (levels : List (List Block)) : List (List Block) :=
  match b.kind with
  | .repeatStart =>
    ((List.replicate b.iterations (levels.headD [])).flatten ++ levels.tail.headD []) ::
      levels.tail.tail
  | .repeatEnd => [] :: levels
  | _ => (b :: levels.headD []) :: levels.tail

namespace Block

variable {b : Block} {levels : List (List Block)}

theorem onto_repeatStart (kind : b.kind = .repeatStart) :
    b.onto levels =
      ((List.replicate b.iterations (levels.headD [])).flatten ++ levels.tail.headD []) ::
        levels.tail.tail := by
  simp only [onto, kind]

theorem onto_repeatEnd (kind : b.kind = .repeatEnd) : b.onto levels = [] :: levels := by
  simp only [onto, kind]

theorem onto_primitive (prim : b.kind.isPrimitive) :
    b.onto levels = (b :: levels.headD []) :: levels.tail := by
  cases kind : b.kind <;> simp only [kind, BlockKind.isPrimitive, Bool.false_eq_true] at prim <;>
    simp only [onto, kind]

end Block

namespace Outline

theorem expandAll_append (os os' : List Outline) :
    expandAll (os ++ os') = expandAll os ++ expandAll os' := by
  induction os with
  | nil => rfl
  | cons o rest ih => rw [List.cons_append, expandAll, expandAll, ih, List.append_assoc]

theorem expandAll_flatten (ls : List (List Outline)) :
    expandAll ls.flatten = (ls.map expandAll).flatten := by
  induction ls with
  | nil => rfl
  | cons level outer ih => rw [List.flatten_cons, expandAll_append, ih]; rfl

end Outline

namespace Program

variable {p : Program} {bs : List Block} {i : Nat}

/-- The levels of a list of blocks, the innermost first, with the repeats written out. -/
def writtenLevels (bs : List Block) : List (List Block) := bs.foldr Block.onto [[]]

/-- The primitive blocks of a program in the order in which a run comes to them. -/
def written (p : Program) : List Block := (writtenLevels p.blocks).flatten

theorem writtenLevels_cons (b : Block) (bs : List Block) :
    writtenLevels (b :: bs) = b.onto (writtenLevels bs) := rfl

/-- What stands in front changes the levels of what follows, and nothing else does. -/
theorem writtenLevels_append (bs rest : List Block) :
    writtenLevels (bs ++ rest) = bs.foldr Block.onto (writtenLevels rest) :=
  List.foldr_append

theorem exists_writtenLevels_eq_cons (bs : List Block) :
    ∃ level outer, writtenLevels bs = level :: outer := by
  cases bs with
  | nil => exact ⟨[], [], rfl⟩
  | cons b rest =>
    rw [writtenLevels_cons, Block.onto]
    split <;> exact ⟨_, _, rfl⟩

/-! ## Positions and blocks -/

/-- What stands at the positions of a part of an outline, written out. -/
def standing (p : Program) (os : List Outline) : List (Option Block) :=
  (expandAll os).map (p.blocks[·]?)

theorem standing_primitive (p : Program) (i : Nat) (os : List Outline) :
    p.standing (primitive i :: os) = p.blocks[i]? :: p.standing os := rfl

theorem standing_loop (p : Program) (start times : Nat) (body os : List Outline) :
    p.standing (loop start times body :: os) =
      (List.replicate times (p.standing body)).flatten ++ p.standing os := by
  rw [standing, expandAll, expand, List.map_append, List.map_flatten, List.map_replicate]
  rfl

/-- Where the same stands at the positions of levels, it does so at those of the innermost one and
of the others. -/
theorem standing_headD {ls : List (List Outline)} {written : List (List Block)}
    (same : ls.map p.standing = written.map (List.map some)) :
    p.standing (ls.headD []) = (written.headD []).map some ∧
      ls.tail.map p.standing = written.tail.map (List.map some) := by
  cases ls with
  | nil =>
    obtain rfl : written = [] := List.map_eq_nil_iff.1 same.symm
    exact ⟨rfl, rfl⟩
  | cons level outer =>
    cases written with
    | nil => cases same
    | cons blocks rest => exact ⟨(List.cons.inj same).1, (List.cons.inj same).2⟩

/-- At the positions of each level stand the blocks of the level written out. -/
theorem map_standing_levels (stands : p.blocks.drop i = bs) :
    (levels i bs).map p.standing = (writtenLevels bs).map (List.map some) := by
  induction bs generalizing i with
  | nil => rfl
  | cons b rest ih =>
    have found : p.blocks[i]? = some b := by rw [← List.head?_drop, stands, List.head?_cons]
    have later := ih (i := i + 1) (by rw [← List.tail_drop, stands, List.tail_cons])
    obtain ⟨inner, outer⟩ := standing_headD later
    rw [writtenLevels_cons]
    cases kind : b.kind with
    | repeatStart =>
      obtain ⟨around, beyond⟩ := standing_headD outer
      rw [levels_repeatStart kind, Block.onto_repeatStart kind, List.map_cons, List.map_cons,
        standing_loop, inner, around, beyond, List.map_append, List.map_flatten,
        List.map_replicate]
    | repeatEnd =>
      rw [levels_repeatEnd kind, Block.onto_repeatEnd kind, List.map_cons, List.map_cons, later]
      rfl
    | _ =>
      have prim : b.kind.isPrimitive := by rw [kind]; rfl
      rw [levels_primitive prim, Block.onto_primitive prim, List.map_cons, List.map_cons,
        standing_primitive, found, inner, outer, List.map_cons]

/-- **At the positions of the expansion stand the blocks of the program written out.** -/
theorem map_expansion (p : Program) : p.expansion.map (p.blocks[·]?) = p.written.map some := by
  have same : (levels 0 p.blocks).map p.standing = (writtenLevels p.blocks).map (List.map some) :=
    map_standing_levels rfl
  rw [expansion, outline, expandAll_flatten, written, List.map_flatten, List.map_flatten, ← same,
    List.map_map]
  rfl

theorem exactLength_eq (p : Program) : p.exactLength = p.written.length := by
  have same := congrArg List.length p.map_expansion
  rwa [List.length_map, List.length_map, expansion, length_expandAll] at same

/-! ## Balanced blocks -/

theorem exists_levels_prepend (blocks : List Block) (closed : List (List Block))
    (last : List Block) :
    ∃ closed' last', closed'.length = closed.length ∧ ∀ level outer,
      let levels := closed ++ (last ++ level) :: outer
      (blocks ++ levels.headD []) :: levels.tail = closed' ++ (last' ++ level) :: outer := by
  cases closed with
  | nil =>
    refine ⟨[], blocks ++ last, rfl, fun level outer => ?_⟩
    rw [List.append_assoc]
    rfl
  | cons inner closed => exact ⟨(blocks ++ inner) :: closed, last, rfl, fun level outer => rfl⟩

/-- Blocks that close so many repeats open before them are so many levels, and one more that goes on
behind them. -/
theorem foldr_onto_of_closes {depth : Nat} (h : closes depth bs = true) :
    ∃ closed last, closed.length = depth ∧ ∀ level outer,
      bs.foldr Block.onto (level :: outer) = closed ++ (last ++ level) :: outer := by
  induction bs generalizing depth with
  | nil =>
    obtain rfl : depth = 0 := by simpa [closes] using h
    exact ⟨[], [], rfl, fun level outer => rfl⟩
  | cons b rest ih =>
    cases kind : b.kind with
    | repeatStart =>
      simp only [closes, kind] at h
      -- the repeat takes the first of the levels that `rest` closes for its body
      obtain ⟨_ | ⟨body, closed⟩, last, length, split⟩ := ih h
      · cases length
      · obtain ⟨closed', last', length', front⟩ :=
          exists_levels_prepend (List.replicate b.iterations body).flatten closed last
        refine ⟨closed', last', length'.trans (Nat.succ.inj length), fun level outer => ?_⟩
        rw [← front, List.foldr_cons, split, Block.onto_repeatStart kind]
        rfl
    | repeatEnd =>
      cases depth with
      | zero => simp only [closes, kind, Bool.false_eq_true] at h
      | succ depth =>
        simp only [closes, kind] at h
        obtain ⟨closed, last, rfl, split⟩ := ih h
        refine ⟨[] :: closed, last, rfl, fun level outer => ?_⟩
        rw [List.foldr_cons, split, Block.onto_repeatEnd kind, List.cons_append]
    | _ =>
      have prim : b.kind.isPrimitive := by rw [kind]; rfl
      simp only [closes, kind] at h
      obtain ⟨closed, last, rfl, split⟩ := ih h
      obtain ⟨closed', last', length, front⟩ := exists_levels_prepend [b] closed last
      refine ⟨closed', last', length, fun level outer => ?_⟩
      rw [← front, List.foldr_cons, split, Block.onto_primitive prim]
      rfl

theorem Balanced.foldr_onto (h : Balanced bs) :
    ∃ blocks, ∀ level outer,
      bs.foldr Block.onto (level :: outer) = (blocks ++ level) :: outer := by
  obtain ⟨closed, blocks, length, split⟩ := foldr_onto_of_closes h
  obtain rfl : closed = [] := List.eq_nil_of_length_eq_zero length
  exact ⟨blocks, split⟩

theorem foldr_onto_replicate {blocks : List Block}
    (once : ∀ level outer, bs.foldr Block.onto (level :: outer) = (blocks ++ level) :: outer)
    (times : Nat) (level : List Block) (outer : List (List Block)) :
    (List.replicate times bs).flatten.foldr Block.onto (level :: outer) =
      ((List.replicate times blocks).flatten ++ level) :: outer := by
  induction times with
  | zero => rfl
  | succ times ih =>
    rw [List.replicate_succ, List.flatten_cons, List.foldr_append, ih, once, List.replicate_succ,
      List.flatten_cons, List.append_assoc]

/-- **A repeat of balanced blocks is written out like copies of them**, whatever stands around
it. -/
theorem writtenLevels_repeat {before behind : List Block} {opening closing : Block}
    (opens : opening.kind = .repeatStart) (ends : closing.kind = .repeatEnd) (h : Balanced bs) :
    writtenLevels (before ++ [opening] ++ bs ++ [closing] ++ behind) =
      writtenLevels (before ++ (List.replicate opening.iterations bs).flatten ++ behind) := by
  obtain ⟨blocks, once⟩ := h.foldr_onto
  obtain ⟨level, outer, split⟩ := exists_writtenLevels_eq_cons behind
  have repeated : writtenLevels (opening :: (bs ++ closing :: behind)) =
      ((List.replicate opening.iterations blocks).flatten ++ level) :: outer := by
    calc writtenLevels (opening :: (bs ++ closing :: behind))
        = opening.onto (bs.foldr Block.onto (closing.onto (writtenLevels behind))) :=
          congrArg opening.onto (writtenLevels_append bs (closing :: behind))
      _ = opening.onto ((blocks ++ []) :: level :: outer) := by
          rw [split, Block.onto_repeatEnd ends, once]
      _ = ((List.replicate opening.iterations blocks).flatten ++ level) :: outer := by
          rw [Block.onto_repeatStart opens, List.append_nil]
          rfl
  have copied : writtenLevels ((List.replicate opening.iterations bs).flatten ++ behind) =
      ((List.replicate opening.iterations blocks).flatten ++ level) :: outer := by
    rw [writtenLevels_append, split, foldr_onto_replicate once]
  simp only [List.append_assoc, List.cons_append, List.nil_append]
  rw [writtenLevels_append before, writtenLevels_append before, repeated, copied]

end Program

end Labyrinth
