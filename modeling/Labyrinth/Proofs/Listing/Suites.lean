import Labyrinth.Listing.Suites
import Labyrinth.Proofs.Listing.Legible
import Mathlib.Data.List.TakeWhile

/-!
# Where Python listings have their suites

**Theorem (`wellSuited_python_iff`).** In the Python listing of a program the function and all loops
have their suites exactly if the program has no block at all, or if it has one that is no closing
bracket and each opening bracket has such a block right behind it.

A closing bracket writes no line, and only the program without any block gets a line that does
nothing. So an empty repeat, and one that is opened at the end, leaves the head of a loop without a
suite (`not_wellSuited_python_emptyRepeat`), and stray closing brackets alone leave the function
without one.

**Idea.** What follows a head is the first line of the blocks behind it. The closing brackets in
front of that line bring it up, one level each (`Style.depth_head?_lines`).
-/

namespace Labyrinth

open Listing Script Suite

/-! ## Lines where ends are not written -/

namespace Listing.Style

variable {s : Style} {b : Block} {front back : String}

theorem lines_call (s : Style) {c : Call} (kind : b.kind = c.kind) (depth : Nat)
    (rest : List Block) :
    s.lines depth (b :: rest) = ⟨depth, s.callLine c⟩ :: s.lines depth rest := by
  cases c <;> simp only [lines, kind, Call.kind, callLine]

theorem lines_repeatStart (s : Style) (kind : b.kind = .repeatStart) (depth : Nat)
    (rest : List Block) :
    s.lines depth (b :: rest) = ⟨depth, s.repeatLine b.iterations⟩ :: s.lines (depth + 1) rest := by
  simp only [lines, kind]

theorem lines_repeatEnd (unended : s.endLine = none) (kind : b.kind = .repeatEnd) (depth : Nat)
    (rest : List Block) : s.lines depth (b :: rest) = s.lines (depth - 1) rest := by
  cases depth with
  | zero => simp only [lines, kind]
  | succ depth =>
    simp only [lines, kind, endLines, unended]
    rfl

theorem lines_nil (unended : s.endLine = none) (depth : Nat) : s.lines depth [] = [] := by
  rw [lines]
  induction depth with
  | zero => rfl
  | succ depth ih =>
    rw [closeLines, ih, endLines, unended]
    rfl

/-- **The first line stands as deep as the closing brackets before it leave.** -/
theorem depth_head?_lines (unended : s.endLine = none) (depth : Nat) (bs : List Block) :
    (s.lines depth bs).head?.map (·.depth) =
      (bs.dropWhile (·.kind = .repeatEnd)).head?.map
        fun _ => depth - (bs.takeWhile (·.kind = .repeatEnd)).length := by
  induction bs generalizing depth with
  | nil =>
    rw [lines_nil unended]
    rfl
  | cons b rest ih =>
    simp only [List.dropWhile_cons, List.takeWhile_cons, decide_eq_true_eq]
    by_cases ends : b.kind = .repeatEnd
    · rw [lines_repeatEnd unended ends, ih, if_pos ends, if_pos ends, List.length_cons, Nat.sub_sub,
        Nat.add_comm 1]
    · rw [if_neg ends, if_neg ends]
      rcases call_or_bracket b with ⟨c, kind⟩ | kind | kind
      · rw [lines_call s kind]
        rfl
      · rw [lines_repeatStart s kind]
        rfl
      · exact absurd kind ends

theorem exists_outermost_iff (unended : s.endLine = none) (bs : List Block) :
    (∃ first ∈ (s.lines 0 bs).head?, first.depth = 0) ↔ ∃ b ∈ bs, b.kind ≠ .repeatEnd := by
  refine Option.map_eq_some_iff.symm.trans ?_
  rw [depth_head?_lines unended]
  cases lined : bs.dropWhile (·.kind = .repeatEnd) with
  | nil =>
    rw [List.dropWhile_eq_nil_iff] at lined
    simpa using lined
  | cons b rest =>
    have kept : b ∈ bs := (List.dropWhile_sublist _).mem (lined ▸ List.mem_cons_self)
    have noEnd : b.kind ≠ .repeatEnd := by
      have first := List.head?_dropWhile_not (·.kind = .repeatEnd) bs
      rw [lined] at first
      simpa using first
    exact iff_of_true (by simp) ⟨b, kept, noEnd⟩

theorem exists_deeper_iff (unended : s.endLine = none) (depth : Nat) (bs : List Block) :
    (∃ first ∈ (s.lines (depth + 1) bs).head?, first.depth = depth + 1) ↔
      ∃ b ∈ bs.head?, b.kind ≠ .repeatEnd := by
  refine Option.map_eq_some_iff.symm.trans ?_
  rw [depth_head?_lines unended]
  cases bs with
  | nil => simp
  | cons b rest =>
    simp only [List.dropWhile_cons, List.takeWhile_cons, decide_eq_true_eq]
    by_cases ends : b.kind = .repeatEnd
    · rw [if_pos ends, if_pos ends, List.length_cons]
      refine iff_of_false (fun same => ?_) (by simpa using ends)
      obtain ⟨-, -, same⟩ := Option.map_eq_some_iff.1 same
      omega
    · rw [if_neg ends, if_neg ends]
      exact iff_of_true rfl (by simpa using ends)

/-- The heads among the lines are followed by deeper lines exactly if the opening brackets are
followed by blocks that have lines. -/
theorem Regular.followed_lines (h : s.Regular front back) (unended : s.endLine = none) (depth : Nat)
    (bs : List Block) :
    Followed (fun l => ∃ times, l.text = s.repeatLine times)
        (fun l next => next.depth = l.depth + 1) (s.lines depth bs) ↔
      Followed (·.kind = .repeatStart) (fun _ next => next.kind ≠ .repeatEnd) bs := by
  induction bs generalizing depth with
  | nil =>
    rw [lines_nil unended]
    exact Iff.rfl
  | cons b rest ih =>
    rcases call_or_bracket b with ⟨c, kind⟩ | kind | kind
    · have noHead : ¬ ∃ times, s.callLine c = s.repeatLine times := fun ⟨times, same⟩ =>
        h.repeatLine_notMem times (same ▸ s.callLine_mem_words c)
      have noStart : b.kind ≠ .repeatStart := by
        rw [kind]
        cases c <;> decide
      rw [lines_call s kind]
      exact and_congr (iff_of_true (absurd · noHead) (absurd · noStart)) (ih depth)
    · rw [lines_repeatStart s kind]
      exact and_congr
        (imp_congr (iff_of_true ⟨b.iterations, rfl⟩ kind) (exists_deeper_iff unended depth rest))
        (ih (depth + 1))
    · rw [lines_repeatEnd unended kind, ih]
      exact (and_iff_right fun start => nomatch kind.symm.trans start).symm

theorem mem_words_or_repeatLine {l : Line} {p : Program} (mem : l ∈ s.programLines p) :
    l.text ∈ s.words ∨ ∃ times, l.text = s.repeatLine times := by
  rw [programLines] at mem
  split at mem
  · obtain ⟨only, standsFor, rfl⟩ := List.mem_map.1 mem
    exact .inl (mem_words_of_emptyLine (Option.mem_toList.1 standsFor))
  · obtain ⟨t, worded⟩ := mem_lines mem
    cases t with
    | call c => exact .inl (Option.some.inj worded ▸ s.callLine_mem_words c)
    | opening times => exact .inr ⟨times, (Option.some.inj worded).symm⟩
    | closing => exact .inl (mem_words_of_endLine worded)

end Listing.Style

/-! ## Lines of text -/

namespace Suite

open Style

variable {l : Line} {ls : List Line}

theorem isHead_lineChars (plain : Plain l.text) (other : l.text ≠ "def solve_maze():") :
    IsHead (python.lineChars l) ↔ ∃ times, l.text = python.repeatLine times := by
  rw [IsHead, content, dropWhile_lineChars plain, String.toList_inj]
  exact (or_iff_right other).trans (exists_congr fun _ => String.toList_inj)

theorem indentation_lineChars (plain : Plain l.text) :
    indentation (python.lineChars l) = (l.depth + 1) * 4 := by
  rw [indentation, takeWhile_lineChars plain, List.length_replicate, Nat.add_comm l.depth]
  rfl

/-- What stands behind the function. -/
def foot : List (List Char) := ["# Run the solution".toList, "solve_maze()".toList]

theorem not_isHead {line : List Char}
    (first : (content line).head? ≠ some 'd' ∧ (content line).head? ≠ some 'f') :
    ¬ IsHead line := by
  rintro (same | ⟨times, same⟩)
  · exact first.1 (congrArg List.head? same)
  · exact first.2 ((congrArg List.head? same).trans (python_regular.head?_repeatLine times))

theorem followed_foot : Followed IsHead Deeper foot :=
  ⟨(absurd · (not_isHead (by decide))), (absurd · (not_isHead (by decide))), trivial⟩

theorem exists_indentation_iff (plain : ∀ l ∈ ls, Plain l.text) (depth : Nat) :
    (∃ next ∈ (ls.map python.lineChars ++ foot).head?, indentation next = (depth + 1) * 4) ↔
      ∃ first ∈ ls.head?, first.depth = depth := by
  cases ls with
  | nil =>
    refine iff_of_false ?_ (by simp)
    rintro ⟨next, last, deep⟩
    obtain rfl := Option.some.inj last
    have outside : indentation "# Run the solution".toList = 0 := by decide
    rw [outside] at deep
    omega
  | cons l rest =>
    have deep := indentation_lineChars (plain l List.mem_cons_self)
    simp only [List.map_cons, List.cons_append, List.head?_cons, Option.mem_some_iff,
      exists_eq_left', deep]
    omega

/-- The suites of the loops can be told from the depths of the lines. -/
theorem followed_append_foot
    (plain : ∀ l ∈ ls, Plain l.text ∧ l.text ≠ "def solve_maze():") :
    Followed IsHead Deeper (ls.map python.lineChars ++ foot) ↔
      Followed (fun l => ∃ times, l.text = python.repeatLine times)
        (fun l next => next.depth = l.depth + 1) ls := by
  induction ls with
  | nil => exact iff_of_true followed_foot trivial
  | cons l rest ih =>
    rw [List.forall_mem_cons] at plain
    obtain ⟨⟨bare, other⟩, later⟩ := plain
    have deeper := exists_indentation_iff (fun l mem => (later l mem).1) (l.depth + 1)
    rw [Nat.succ_mul (l.depth + 1), ← indentation_lineChars bare] at deeper
    exact and_congr (imp_congr (isHead_lineChars bare other) deeper) (ih later)

/-- **The lines of a listing that are not blank** are those of the blocks, with two lines above them
and two below. -/
theorem filledLines_text (p : Program) :
    filledLines (python.text p) =
      "# RoboMaze Program".toList :: "def solve_maze():".toList ::
        ((python.programLines p).map python.lineChars ++ foot) := by
  have plain := python_regular.legible.plain_programLines p
  have front : (python.text p).toList = "# RoboMaze Program".toList ++ '\n' :: ([] ++ '\n' ::
      ("def solve_maze():".toList ++ '\n' ::
        ((String.join ((python.programLines p).map python.lineText)).toList ++
          python.closing.toList))) := by
    rw [text, String.toList_append, String.toList_append]
    rfl
  have closing : (python.closing.toList.splitOn '\n').filter (content · ≠ []) = foot := by decide
  have body : ((python.programLines p).map python.lineChars).filter (content · ≠ []) =
      (python.programLines p).map python.lineChars := by
    refine List.filter_eq_self.2 fun line mem => decide_eq_true ?_
    obtain ⟨l, listed, rfl⟩ := List.mem_map.1 mem
    rw [content, dropWhile_lineChars (plain l listed)]
    exact (plain l listed).toList_ne_nil
  rw [filledLines, front, List.splitOn_append_cons_self_of_not_mem (by decide),
    List.splitOn_append_cons_self_of_not_mem (by decide),
    List.splitOn_append_cons_self_of_not_mem (by decide),
    python_regular.legible.splitOn_lines_append plain, List.filter_cons_of_pos (by decide),
    List.filter_cons_of_neg (by decide), List.filter_cons_of_pos (by decide), List.filter_append,
    body, closing]

theorem plain_and_other (p : Program) :
    ∀ l ∈ python.programLines p, Plain l.text ∧ l.text ≠ "def solve_maze():" := by
  have plain := python_regular.legible.plain_programLines p
  intro l mem
  refine ⟨plain l mem, fun same => ?_⟩
  rcases mem_words_or_repeatLine mem with fixed | ⟨times, head⟩
  · rw [same] at fixed
    exact absurd fixed (by decide)
  · have first := python_regular.head?_repeatLine times
    rw [← head, same] at first
    exact absurd first (by decide)

theorem wellSuited_text_iff (p : Program) :
    WellSuited (python.text p) ↔
      (∃ first ∈ (python.programLines p).head?, first.depth = 0) ∧
        Followed (fun l => ∃ times, l.text = python.repeatLine times)
          (fun l next => next.depth = l.depth + 1) (python.programLines p) := by
  have plain := plain_and_other p
  have title : ¬ IsHead "# RoboMaze Program".toList := not_isHead (by decide)
  have function : IsHead "def solve_maze():".toList := .inl rfl
  rw [WellSuited, filledLines_text]
  refine (and_iff_right (absurd · title)).trans (and_congr ?_ (followed_append_foot plain))
  exact (imp_iff_right function).trans (exists_indentation_iff (fun l mem => (plain l mem).1) 0)

end Suite

/-! ## Programs -/

/-- The empty program is given a line; any other has to have one of its own. -/
theorem Program.wellSuited_python_of_blocks {p : Program} (filled : p.isEmpty = false) :
    WellSuited (python.text p) ↔ (∃ b ∈ p.blocks, b.kind ≠ .repeatEnd) ∧ p.RepeatsFilled := by
  rw [wellSuited_text_iff, Style.programLines, filled]
  exact and_congr (Style.exists_outermost_iff rfl _) (python_regular.followed_lines rfl 0 _)

/-- **The function and all loops of a Python listing have their suites** exactly if there is no
block, or some block has a line and so has each that an opening bracket is followed by. -/
theorem Program.wellSuited_python_iff (p : Program) :
    WellSuited (python.text p) ↔
      p.isEmpty ∨ (∃ b ∈ p.blocks, b.kind ≠ .repeatEnd) ∧ p.RepeatsFilled := by
  cases filled : p.isEmpty with
  | false =>
    rw [p.wellSuited_python_of_blocks filled]
    exact (or_iff_right Bool.false_ne_true).symm
  | true =>
    have noHead : ¬ ∃ times, "pass" = python.repeatLine times := fun ⟨times, same⟩ =>
      python_regular.repeatLine_notMem times (same ▸ by decide)
    rw [wellSuited_text_iff, Style.programLines, if_pos filled]
    exact iff_of_true ⟨⟨_, rfl, rfl⟩, (absurd · noHead), trivial⟩ (.inl rfl)

/-- The loop of an empty repeat has no suite. -/
theorem Program.not_wellSuited_python_emptyRepeat :
    ¬ WellSuited (python.text ⟨[⟨"a", .repeatStart, none⟩, ⟨"b", .repeatEnd, none⟩]⟩) := by
  rw [Program.wellSuited_python_of_blocks rfl]
  decide

end Labyrinth
