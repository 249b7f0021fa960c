import Labyrinth.Proofs.Program.Written

/-!
# Mended programs

**Theorem (`written_mended`).** A program whose stray closing brackets are taken out, and whose
unclosed repeats are closed at its end, is balanced (`balanced_mended`) and written out like the
program as it was.

Which brackets are stray and how many repeats stay open is read off the table of partners, that is
off a stack of positions. Its height alone decides: what is kept at some height (`keepClosers`) and
the height in the end (`openAfter`) go through the blocks without positions, and they are what the
table says (`withoutStray_eq`, `unclosedCount_eq`).

Between brackets that are closed further on, the levels of a mended list are those of the list as it
was; all the levels that belong to stray brackets become one (`writtenLevels_keepClosers`).
-/

namespace Labyrinth.Program

variable {p : Program} {bs closers : List Block} {starts : List Nat} {depth i j s : Nat}

/-! ## The height of the stack -/

/-- The number of repeats left open, when so many are open before the blocks. -/
def openAfter : Nat → List Block → Nat
  | depth, [] => depth
  | depth, b :: rest =>
    match b.kind with
    | .repeatStart => openAfter (depth + 1) rest
    | .repeatEnd => openAfter (depth - 1) rest
    | _ => openAfter depth rest

/-- The blocks without the closing brackets that find no repeat open, when so many are open before
them. -/
def keepClosers : Nat → List Block → List Block
  | _, [] => []
  | depth, b :: rest =>
    match b.kind, depth with
    | .repeatStart, depth => b :: keepClosers (depth + 1) rest
    | .repeatEnd, 0 => keepClosers 0 rest
    | .repeatEnd, depth + 1 => b :: keepClosers depth rest
    | _, depth => b :: keepClosers depth rest

/-! ## Closed repeats -/

theorem le_of_mem_closings (mem : (s, j) ∈ closings i starts bs) : i ≤ j := by
  fun_induction closings i starts bs with
  | case1 => cases mem
  | case2 i starts b rest opens ih => exact Nat.le_of_succ_le (ih mem)
  | case3 i b rest start outer ends ih =>
    rcases List.mem_cons.1 mem with here | later
    · exact Nat.le_of_eq (Prod.mk.inj here).2.symm
    · exact Nat.le_of_succ_le (ih later)
  | case4 i starts b rest _ _ ih => exact Nat.le_of_succ_le (ih mem)

theorem lookup_closings_of_mem (distinct : starts.Nodup) (old : ∀ a ∈ starts, a < i)
    (mem : (s, j) ∈ closings i starts bs) : (closings i starts bs).lookup s = some j := by
  fun_induction closings i starts bs with
  | case1 => cases mem
  | case2 i starts b rest opens ih =>
    have fresh : i ∉ starts := fun h => Nat.lt_irrefl i (old i h)
    have old' : ∀ a ∈ starts, a < i + 1 := fun a h => Nat.lt_succ_of_lt (old a h)
    exact ih (List.nodup_cons.2 ⟨fresh, distinct⟩)
      (List.forall_mem_cons.2 ⟨Nat.lt_succ_self i, old'⟩) mem
  | case3 i b rest start outer ends ih =>
    rw [List.nodup_cons] at distinct
    have old' : ∀ a ∈ start :: outer, a < i + 1 := fun a h => Nat.lt_succ_of_lt (old a h)
    rw [List.forall_mem_cons] at old'
    rcases List.mem_cons.1 mem with here | later
    · obtain ⟨rfl, rfl⟩ := Prod.mk.inj here
      exact List.lookup_cons_self
    · have found := ih distinct.2 old'.2 later
      have other : (s == start) = false := by
        rw [beq_eq_false_iff_ne]
        rintro rfl
        rw [lookup_closings_of_not_open rest distinct.1 old'.1] at found
        cases found
      rw [List.lookup_cons, other]
      exact found
  | case4 i starts b rest _ _ ih =>
    exact ih distinct (fun a h => Nat.lt_succ_of_lt (old a h)) mem

theorem mem_matchingEnds : some j ∈ p.matchingEnds ↔ j ∈ (closings 0 [] p.blocks).map Prod.snd := by
  rw [matchingEnds, List.mem_map, List.mem_map]
  constructor
  · rintro ⟨i, -, found⟩
    obtain ⟨front, back, split, -⟩ := List.lookup_eq_some_iff.1 found
    exact ⟨(i, j), by rw [split]; exact List.mem_append_right front List.mem_cons_self, rfl⟩
  · rintro ⟨⟨i, j⟩, mem, rfl⟩
    have found : p.matchingEnd? i = some j := lookup_closings_of_mem .nil (by simp) mem
    refine ⟨i, List.mem_range.2 (Nat.lt_of_not_le fun beyond => ?_), found⟩
    rw [matchingEnd?_eq_closingByDepth?, closingByDepth?, List.drop_eq_nil_of_le beyond] at found
    cases found

/-! ## Stray brackets -/

/-- The block at a position is no closing bracket, or one of a repeat that is closed. -/
def stays (closed : List (Nat × Nat)) (x : Block × Nat) : Bool :=
  ¬ (x.1.kind = .repeatEnd ∧ x.2 ∉ closed.map Prod.snd)

theorem map_filter_stays (i : Nat) (starts : List Nat) (bs : List Block) :
    ((bs.zipIdx i).filter (stays (closings i starts bs))).map Prod.fst =
      keepClosers starts.length bs := by
  fun_induction closings i starts bs with
  | case1 => rfl
  | case2 i starts b rest opens ih =>
    rw [List.zipIdx_cons, List.filter_cons_of_pos (by simp [stays, opens]), List.map_cons, ih]
    simp only [keepClosers, opens, List.length_cons]
  | case3 i b rest start outer ends ih =>
    -- The bracket at `i` closes a repeat, and the others stand behind it.
    have behind : (rest.zipIdx (i + 1)).filter (stays ((start, i) :: closings (i + 1) outer rest)) =
        (rest.zipIdx (i + 1)).filter (stays (closings (i + 1) outer rest)) := by
      refine List.filter_congr fun x mem => ?_
      have later : x.2 ≠ i := Nat.ne_of_gt (List.le_snd_of_mem_zipIdx mem)
      simp only [stays, List.map_cons, List.mem_cons, later, false_or]
    rw [List.zipIdx_cons, List.filter_cons_of_pos (by simp [stays]), List.map_cons, behind, ih]
    simp only [keepClosers, ends, List.length_cons]
  | case4 i starts b rest opens ends ih =>
    cases kind : b.kind with
    | repeatStart => exact absurd kind opens
    | repeatEnd =>
      obtain rfl : starts = [] := by
        cases starts with
        | nil => rfl
        | cons start outer => exact (ends start outer kind rfl).elim
      have nothing : i ∉ (closings (i + 1) [] rest).map Prod.snd := by
        intro mem
        obtain ⟨⟨s, j⟩, mem, rfl⟩ := List.mem_map.1 mem
        exact Nat.not_succ_le_self _ (le_of_mem_closings mem)
      rw [List.zipIdx_cons, List.filter_cons_of_neg (by simpa [stays, kind] using nothing), ih]
      simp only [keepClosers, kind, List.length_nil]
    | _ =>
      rw [List.zipIdx_cons, List.filter_cons_of_pos (by simp [stays, kind]), List.map_cons, ih]
      simp only [keepClosers, kind]

/-- Taking out the stray closing brackets needs the height of the stack only. -/
theorem withoutStray_eq (p : Program) : p.withoutStray = keepClosers 0 p.blocks := by
  have same := map_filter_stays 0 [] p.blocks
  rw [List.length_nil] at same
  rw [withoutStray, ← same]
  congr 1
  refine List.filter_congr fun (b, i) mem => ?_
  have found : p.blocks[i]? = some b := List.mk_mem_zipIdx_iff_getElem?.1 mem
  have stray : p.Stray i ↔ b.kind = .repeatEnd ∧ some i ∉ p.matchingEnds := by
    rw [Stray, found]
    simp
  simp only [stays, stray, mem_matchingEnds]

/-! ## Unclosed repeats -/

/-- The block at a position starts a repeat that nothing closes. -/
def unclosed (closed : List (Nat × Nat)) (x : Block × Nat) : Bool :=
  x.1.kind = .repeatStart && (closed.lookup x.2).isNone

theorem countP_unclosed (distinct : starts.Nodup) (old : ∀ a ∈ starts, a < i) :
    (bs.zipIdx i).countP (unclosed (closings i starts bs)) +
        starts.countP (fun s => ((closings i starts bs).lookup s).isNone) =
      openAfter starts.length bs := by
  fun_induction closings i starts bs with
  | case1 => simp [openAfter]
  | case2 i starts b rest opens ih =>
    have fresh : i ∉ starts := fun h => Nat.lt_irrefl i (old i h)
    have old' : ∀ a ∈ starts, a < i + 1 := fun a h => Nat.lt_succ_of_lt (old a h)
    have later := ih (List.nodup_cons.2 ⟨fresh, distinct⟩)
      (List.forall_mem_cons.2 ⟨Nat.lt_succ_self i, old'⟩)
    have same : unclosed (closings (i + 1) (i :: starts) rest) (b, i) =
        ((closings (i + 1) (i :: starts) rest).lookup i).isNone := by
      simp [unclosed, opens]
    rw [List.length_cons, List.countP_cons] at later
    simp only [openAfter, opens, ← later, List.zipIdx_cons, List.countP_cons, same]
    omega
  | case3 i b rest start outer ends ih =>
    rw [List.nodup_cons] at distinct
    have old' : ∀ a ∈ start :: outer, a < i + 1 := fun a h => Nat.lt_succ_of_lt (old a h)
    rw [List.forall_mem_cons] at old'
    -- The repeat that is closed here is none of those that come later.
    have elsewhere {s : Nat} (other : s ≠ start) :
        ((start, i) :: closings (i + 1) outer rest).lookup s =
          (closings (i + 1) outer rest).lookup s := by
      rw [List.lookup_cons, beq_eq_false_iff_ne.2 other]
    have behind : (rest.zipIdx (i + 1)).countP
          (unclosed ((start, i) :: closings (i + 1) outer rest)) =
        (rest.zipIdx (i + 1)).countP (unclosed (closings (i + 1) outer rest)) := by
      refine List.countP_congr fun x mem => ?_
      have later : i + 1 ≤ x.2 := List.le_snd_of_mem_zipIdx mem
      rw [unclosed, unclosed, elsewhere (by omega)]
    have around : outer.countP
          (fun s => (((start, i) :: closings (i + 1) outer rest).lookup s).isNone) =
        outer.countP fun s => ((closings (i + 1) outer rest).lookup s).isNone := by
      refine List.countP_congr fun s mem => ?_
      rw [elsewhere (fun same => distinct.1 (same ▸ mem))]
    rw [List.zipIdx_cons, List.countP_cons_of_neg (by simp [unclosed, ends]),
      List.countP_cons_of_neg (by simp), behind, around, ih distinct.2 old'.2]
    simp only [openAfter, ends, List.length_cons, Nat.add_sub_cancel]
  | case4 i starts b rest opens ends ih =>
    have later := ih distinct fun a h => Nat.lt_succ_of_lt (old a h)
    have plain : b.kind ≠ .repeatStart := opens
    have skipped : ¬ unclosed (closings (i + 1) starts rest) (b, i) = true := by
      simp [unclosed, plain]
    rw [List.zipIdx_cons, List.countP_cons_of_neg skipped, later]
    cases kind : b.kind with
    | repeatStart => exact absurd kind opens
    | repeatEnd =>
      cases starts with
      | nil => simp only [openAfter, kind, List.length_nil]
      | cons start outer => exact (ends start outer kind rfl).elim
    | _ => simp only [openAfter, kind]

theorem unclosedCount_eq (p : Program) : p.unclosedCount = openAfter 0 p.blocks := by
  have counted : (p.blocks.zipIdx 0).countP (unclosed (closings 0 [] p.blocks)) + 0 =
      openAfter 0 p.blocks := countP_unclosed List.nodup_nil (by simp)
  rw [Nat.add_zero] at counted
  rw [← counted, unclosedCount, matchingEnds, List.zip_map_right, List.countP_map,
    List.zipIdx_eq_zip_range', ← List.range_eq_range', length]
  rfl

/-! ## Mended programs -/

theorem closes_closers (ends : ∀ b ∈ closers, b.kind = .repeatEnd) :
    closes closers.length closers = true := by
  induction closers with
  | nil => rfl
  | cons b rest ih =>
    rw [List.forall_mem_cons] at ends
    simp only [List.length_cons, closes, ends.1]
    exact ih ends.2

/-- What is kept leaves no bracket alone once the repeats left open are closed. -/
theorem closes_keepClosers (count : closers.length = openAfter depth bs)
    (ends : ∀ b ∈ closers, b.kind = .repeatEnd) :
    closes depth (keepClosers depth bs ++ closers) = true := by
  induction bs generalizing depth with
  | nil =>
    rw [keepClosers, List.nil_append, show depth = closers.length from count.symm]
    exact closes_closers ends
  | cons b rest ih =>
    cases kind : b.kind with
    | repeatEnd =>
      cases depth with
      | zero =>
        simp only [openAfter, kind] at count
        simp only [keepClosers, kind]
        exact ih count
      | succ depth =>
        simp only [openAfter, kind, Nat.add_sub_cancel] at count
        simp only [keepClosers, closes, kind, List.cons_append]
        exact ih count
    | _ =>
      simp only [openAfter, kind] at count
      simp only [keepClosers, closes, kind, List.cons_append]
      exact ih count

/-- As many levels as given, and all that is outside them as one. -/
def gathered : Nat → List (List Block) → List (List Block)
  | 0, levels => [levels.flatten]
  | depth + 1, levels => levels.headD [] :: gathered depth levels.tail

theorem prepend_gathered (blocks : List Block) (depth : Nat) (levels : List (List Block)) :
    (blocks ++ (gathered depth levels).headD []) :: (gathered depth levels).tail =
      gathered depth ((blocks ++ levels.headD []) :: levels.tail) := by
  cases depth with
  | zero => cases levels <;> simp [gathered]
  | succ depth => rfl

theorem writtenLevels_closers (ends : ∀ b ∈ closers, b.kind = .repeatEnd) :
    writtenLevels closers = gathered closers.length [] := by
  induction closers with
  | nil => rfl
  | cons b rest ih =>
    rw [List.forall_mem_cons] at ends
    rw [writtenLevels_cons, ih ends.2, Block.onto_repeatEnd ends.1]
    rfl

theorem gathered_singleton_nil (depth : Nat) : gathered depth [[]] = gathered depth [] := by
  cases depth <;> rfl

/-- The levels of what is kept are those of the blocks as they were, but for those of the stray
brackets. -/
theorem writtenLevels_keepClosers (count : closers.length = openAfter depth bs)
    (ends : ∀ b ∈ closers, b.kind = .repeatEnd) :
    writtenLevels (keepClosers depth bs ++ closers) = gathered depth (writtenLevels bs) := by
  induction bs generalizing depth with
  | nil =>
    rw [keepClosers, List.nil_append, writtenLevels_closers ends, count, ← gathered_singleton_nil]
    rfl
  | cons b rest ih =>
    rw [writtenLevels_cons]
    cases kind : b.kind with
    | repeatStart =>
      simp only [openAfter, kind] at count
      simp only [keepClosers, kind]
      rw [List.cons_append, writtenLevels_cons, ih count, Block.onto_repeatStart kind,
        Block.onto_repeatStart kind, ← prepend_gathered]
      rfl
    | repeatEnd =>
      rw [Block.onto_repeatEnd kind]
      cases depth with
      -- a stray bracket is taken out; the level that it ends is gathered with those outside
      | zero =>
        simp only [openAfter, kind] at count
        simp only [keepClosers, kind]
        rw [ih count]
        rfl
      | succ depth =>
        simp only [openAfter, kind, Nat.add_sub_cancel] at count
        simp only [keepClosers, kind]
        rw [List.cons_append, writtenLevels_cons, ih count, Block.onto_repeatEnd kind]
        rfl
    | _ =>
      have prim : b.kind.isPrimitive := by rw [kind]; rfl
      simp only [openAfter, kind] at count
      simp only [keepClosers, kind]
      rw [List.cons_append, writtenLevels_cons, ih count, Block.onto_primitive prim,
        Block.onto_primitive prim]
      exact prepend_gathered [b] depth (writtenLevels rest)

/-- **A mended program is balanced.** -/
theorem balanced_mended (count : closers.length = p.unclosedCount)
    (ends : ∀ b ∈ closers, b.kind = .repeatEnd) : Balanced (p.mended closers).blocks := by
  rw [unclosedCount_eq] at count
  rw [mended, withoutStray_eq]
  exact closes_keepClosers count ends

/-- **A mended program is written out like the program as it was.** -/
theorem written_mended (count : closers.length = p.unclosedCount)
    (ends : ∀ b ∈ closers, b.kind = .repeatEnd) : (p.mended closers).written = p.written := by
  rw [unclosedCount_eq] at count
  rw [written, mended, withoutStray_eq, writtenLevels_keepClosers count ends, gathered,
    List.flatten_singleton, written]

end Labyrinth.Program
