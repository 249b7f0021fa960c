import Labyrinth.Listing.Script
import Labyrinth.Listing.Styles
import Labyrinth.Proofs.Program.Written

/-!
# What the lines of a listing say

Behind the listings of a program in all styles stands one list of tokens (`tokens`): its calls, the
heads of its repeats and the ends of these. A stray closing bracket gives no token, and the repeats
that the program leaves open are ended behind it.

**Depth.** A style words the tokens at the depths at which they stand (`Style.lines_eq`). Each end
closes what is open (`closes_tokens`), and so the depths of the other tokens tell where the ends are
(`eq_of_noted_eq`).

**Meaning.** Nested with a stack, the tokens are statements whose calls are the program written out
(`exists_nest_tokens`). A stack of open loops takes the levels of what is written out one by one,
and outside all loops it takes those that are left (`assemble`).
-/

namespace Labyrinth

namespace Script

variable {b : Block} {bs rest : List Block} {ts ts' : List Token} {depth : Nat}

/-! ## Tokens -/

/-- What some blocks say that stand inside the given number of repeats. -/
def tokens : Nat → List Block → List Token
  | depth, [] => List.replicate depth .closing
  | depth, b :: rest =>
    match b.kind, depth with
    | .forward, _ => .call .moveForward :: tokens depth rest
    | .turnLeft, _ => .call .turnLeft :: tokens depth rest
    | .turnRight, _ => .call .turnRight :: tokens depth rest
    | .wait, _ => .call .wait :: tokens depth rest
    | .repeatStart, _ => .opening b.iterations :: tokens (depth + 1) rest
    | .repeatEnd, 0 => tokens 0 rest
    | .repeatEnd, outer + 1 => .closing :: tokens outer rest

theorem call_or_bracket (b : Block) :
    (∃ c : Call, b.kind = c.kind) ∨ b.kind = .repeatStart ∨ b.kind = .repeatEnd := by
  cases b.kind with
  | forward => exact .inl ⟨.moveForward, rfl⟩
  | turnLeft => exact .inl ⟨.turnLeft, rfl⟩
  | turnRight => exact .inl ⟨.turnRight, rfl⟩
  | wait => exact .inl ⟨.wait, rfl⟩
  | repeatStart => exact .inr (.inl rfl)
  | repeatEnd => exact .inr (.inr rfl)

theorem Call.isPrimitive_kind (c : Call) : c.kind.isPrimitive := by cases c <;> rfl

theorem tokens_call {c : Call} (kind : b.kind = c.kind) (depth : Nat) (rest : List Block) :
    tokens depth (b :: rest) = .call c :: tokens depth rest := by
  cases c <;> simp only [tokens, kind, Call.kind]

theorem tokens_repeatStart (kind : b.kind = .repeatStart) (depth : Nat) (rest : List Block) :
    tokens depth (b :: rest) = .opening b.iterations :: tokens (depth + 1) rest := by
  simp only [tokens, kind]

theorem tokens_stray (kind : b.kind = .repeatEnd) (rest : List Block) :
    tokens 0 (b :: rest) = tokens 0 rest := by
  simp only [tokens, kind]

theorem tokens_repeatEnd (kind : b.kind = .repeatEnd) (depth : Nat) (rest : List Block) :
    tokens (depth + 1) (b :: rest) = .closing :: tokens depth rest := by
  simp only [tokens, kind]

/-! ## Depth -/

/-- The tokens close each loop among them, and as many more as are open before them. -/
inductive Closes : Nat → List Token → Prop
  | nil : Closes 0 []
  | call {depth : Nat} {ts : List Token} (c : Call) :
    Closes depth ts → Closes depth (.call c :: ts)
  | opening {depth : Nat} {ts : List Token} (times : Nat) :
    Closes (depth + 1) ts → Closes depth (.opening times :: ts)
  | closing {depth : Nat} {ts : List Token} :
    Closes depth ts → Closes (depth + 1) (.closing :: ts)

theorem closes_replicate (depth : Nat) : Closes depth (List.replicate depth .closing) := by
  induction depth with
  | zero => exact .nil
  | succ depth ih => exact .closing ih

theorem closes_tokens (depth : Nat) (bs : List Block) : Closes depth (tokens depth bs) := by
  induction bs generalizing depth with
  | nil => exact closes_replicate depth
  | cons b rest ih =>
    rcases call_or_bracket b with ⟨c, kind⟩ | kind | kind
    · rw [tokens_call kind]
      exact .call c (ih depth)
    · rw [tokens_repeatStart kind]
      exact .opening b.iterations (ih (depth + 1))
    · cases depth with
      | zero =>
        rw [tokens_stray kind]
        exact ih 0
      | succ depth =>
        rw [tokens_repeatEnd kind]
        exact .closing (ih depth)

/-- The tokens with the number of loops open around them. The end of a loop stands where its head
does. -/
def indented : Nat → List Token → List (Nat × Token)
  | _, [] => []
  | depth, .call c :: rest => (depth, .call c) :: indented depth rest
  | depth, .opening times :: rest => (depth, .opening times) :: indented (depth + 1) rest
  | depth, .closing :: rest => (depth - 1, .closing) :: indented (depth - 1) rest

/-- The tokens that end no loop, with the number of loops open around them. -/
def noted (depth : Nat) (ts : List Token) : List (Nat × Token) :=
  (indented depth ts).filter (·.2 ≠ .closing)

theorem noted_call (c : Call) (depth : Nat) (ts : List Token) :
    noted depth (.call c :: ts) = (depth, .call c) :: noted depth ts := by
  simp [noted, indented]

theorem noted_opening (times depth : Nat) (ts : List Token) :
    noted depth (.opening times :: ts) = (depth, .opening times) :: noted (depth + 1) ts := by
  simp [noted, indented]

theorem noted_closing (depth : Nat) (ts : List Token) :
    noted (depth + 1) (.closing :: ts) = noted depth ts := by
  simp [noted, indented]

theorem Closes.depth_le (h : Closes depth ts) : ∀ x ∈ (noted depth ts).head?, x.1 ≤ depth := by
  induction h with
  | nil => simp [noted, indented]
  | call c _ _ => simp [noted_call]
  | opening times _ _ => simp [noted_opening]
  | closing _ ih =>
    rw [noted_closing]
    exact fun x mem => Nat.le_succ_of_le (ih x mem)

/-- What begins one deeper is not noted where a loop has been closed. -/
theorem Closes.noted_ne_cons (h : Closes depth ts) (t : Token) (noted' : List (Nat × Token)) :
    noted depth ts ≠ (depth + 1, t) :: noted' := by
  intro same
  have le := h.depth_le (depth + 1, t) (by rw [same]; rfl)
  exact Nat.not_succ_le_self depth le

/-- **The depths tell where the loops end.** -/
theorem eq_of_noted_eq (h : Closes depth ts) (h' : Closes depth ts')
    (same : noted depth ts = noted depth ts') : ts = ts' := by
  -- where one side ends a loop and the other does not, the next noted token stands less deep
  induction h generalizing ts' with
  | nil =>
    cases h' with
    | nil => rfl
    | call c h' => simp [noted, indented] at same
    | opening times h' => simp [noted, indented] at same
  | call c h ih =>
    rw [noted_call] at same
    cases h' with
    | nil => simp [noted, indented] at same
    | call c' h' =>
      rw [noted_call, List.cons.injEq, Prod.mk.injEq] at same
      rw [same.1.2, ih h' same.2]
    | opening times h' => simp [noted_opening] at same
    | closing h' =>
      rw [noted_closing] at same
      exact absurd same.symm (h'.noted_ne_cons _ _)
  | opening times h ih =>
    rw [noted_opening] at same
    cases h' with
    | nil => simp [noted, indented] at same
    | call c h' => simp [noted_call] at same
    | opening times' h' =>
      rw [noted_opening, List.cons.injEq, Prod.mk.injEq] at same
      rw [same.1.2, ih h' same.2]
    | closing h' =>
      rw [noted_closing] at same
      exact absurd same.symm (h'.noted_ne_cons _ _)
  | closing h ih =>
    rw [noted_closing] at same
    cases h' with
    | call c h' =>
      rw [noted_call] at same
      exact absurd same (h.noted_ne_cons _ _)
    | opening times h' =>
      rw [noted_opening] at same
      exact absurd same (h.noted_ne_cons _ _)
    | closing h' =>
      rw [noted_closing] at same
      rw [ih h' same]

/-! ## Meaning -/

/-- What statements do, as the kinds of blocks. -/
def kinds (statements : List Statement) : List BlockKind :=
  (Statement.callsAll statements).map Call.kind

theorem callsAll_append (statements statements' : List Statement) :
    Statement.callsAll (statements ++ statements') =
      Statement.callsAll statements ++ Statement.callsAll statements' := by
  induction statements with
  | nil => rfl
  | cons s rest ih =>
    rw [List.cons_append, Statement.callsAll, Statement.callsAll, ih, List.append_assoc]

theorem kinds_call (statements : List Statement) (c : Call) :
    kinds (statements ++ [.call c]) = kinds statements ++ [c.kind] := by
  rw [kinds, callsAll_append, List.map_append]
  rfl

theorem kinds_loop (statements body : List Statement) (times : Nat) :
    kinds (statements ++ [.loop times body]) =
      kinds statements ++ (List.replicate times (kinds body)).flatten := by
  rw [kinds, callsAll_append, List.map_append, Statement.callsAll, Statement.calls,
    Statement.callsAll, List.append_nil, List.map_flatten, List.map_replicate]
  rfl

/-- What is done in all when loops are open, the innermost has done something, and the levels of
what is still to come are given. -/
def assemble : List OpenLoop → List BlockKind → List (List BlockKind) → List BlockKind
  | [], done, levels => done ++ levels.flatten
  | inner :: outer, done, levels =>
    assemble outer
      (kinds inner.before ++ (List.replicate inner.times (done ++ levels.headD [])).flatten)
      levels.tail

/-- What comes first in the innermost level may be counted as done. -/
theorem assemble_cons (loops : List OpenLoop) (done front : List BlockKind)
    (levels : List (List BlockKind)) :
    assemble loops done ((front ++ levels.headD []) :: levels.tail) =
      assemble loops (done ++ front) levels := by
  cases loops with
  | nil => cases levels <;> simp [assemble]
  | cons inner outer => simp [assemble]

theorem assemble_nil (loops : List OpenLoop) (done : List BlockKind) :
    assemble loops done [[]] = assemble loops done [] := by
  cases loops <;> rfl

/-- The levels of a list of blocks, as the kinds of blocks. -/
def levelKinds (bs : List Block) : List (List BlockKind) :=
  (Program.writtenLevels bs).map (·.map Block.kind)

theorem levelKinds_call {c : Call} (kind : b.kind = c.kind) (rest : List Block) :
    levelKinds (b :: rest) =
      ([c.kind] ++ (levelKinds rest).headD []) :: (levelKinds rest).tail := by
  have prim : b.kind.isPrimitive := by rw [kind]; exact c.isPrimitive_kind
  obtain ⟨level, outer, split⟩ := Program.exists_writtenLevels_eq_cons rest
  rw [levelKinds, levelKinds, Program.writtenLevels_cons, Block.onto_primitive prim, split, ← kind]
  rfl

theorem levelKinds_repeatEnd (kind : b.kind = .repeatEnd) (rest : List Block) :
    levelKinds (b :: rest) = [] :: levelKinds rest := by
  rw [levelKinds, Program.writtenLevels_cons, Block.onto_repeatEnd kind]
  rfl

theorem levelKinds_repeatStart (kind : b.kind = .repeatStart) (rest : List Block) :
    levelKinds (b :: rest) =
      ((List.replicate b.iterations ((levelKinds rest).headD [])).flatten ++
        (levelKinds rest).tail.headD []) :: (levelKinds rest).tail.tail := by
  obtain ⟨level, outer, split⟩ := Program.exists_writtenLevels_eq_cons rest
  rw [levelKinds, levelKinds, Program.writtenLevels_cons, Block.onto_repeatStart kind, split]
  cases outer <;> simp [List.map_flatten]

theorem exists_nest_replicate (loops : List OpenLoop) (done : List Statement) :
    ∃ statements, nest? loops done (List.replicate loops.length .closing) = some statements ∧
      kinds statements = assemble loops (kinds done) [[]] := by
  induction loops generalizing done with
  | nil => exact ⟨done, rfl, by simp [assemble]⟩
  | cons inner outer ih =>
    obtain ⟨statements, nested, same⟩ := ih (inner.before ++ [.loop inner.times done])
    refine ⟨statements, nested, ?_⟩
    rw [same, kinds_loop, assemble, List.headD_cons, List.append_nil, List.tail_cons, assemble_nil]

/-- **Nested with a stack, the tokens of blocks do what the blocks are written out to.** -/
theorem exists_nest_tokens (loops : List OpenLoop) (done : List Statement) (bs : List Block) :
    ∃ statements, nest? loops done (tokens loops.length bs) = some statements ∧
      kinds statements = assemble loops (kinds done) (levelKinds bs) := by
  induction bs generalizing loops done with
  | nil => exact exists_nest_replicate loops done
  | cons b rest ih =>
    rcases call_or_bracket b with ⟨c, kind⟩ | kind | kind
    · obtain ⟨statements, nested, same⟩ := ih loops (done ++ [.call c])
      rw [tokens_call kind, levelKinds_call kind, assemble_cons, ← kinds_call]
      exact ⟨statements, by simpa only [nest?] using nested, same⟩
    · obtain ⟨statements, nested, same⟩ := ih (⟨b.iterations, done⟩ :: loops) []
      rw [tokens_repeatStart kind, levelKinds_repeatStart kind, assemble_cons]
      exact ⟨statements, by simpa only [nest?, List.length_cons] using nested, same⟩
    · rw [levelKinds_repeatEnd kind]
      cases loops with
      | nil =>
        rw [List.length_nil, tokens_stray kind]
        exact ih [] done
      | cons inner outer =>
        obtain ⟨statements, nested, same⟩ := ih outer (inner.before ++ [.loop inner.times done])
        rw [List.length_cons, tokens_repeatEnd kind]
        refine ⟨statements, nested, ?_⟩
        rw [same, kinds_loop, assemble, List.headD_cons, List.append_nil, List.tail_cons]

theorem exists_nest_program (p : Program) :
    ∃ statements, nest? [] [] (tokens 0 p.blocks) = some statements ∧
      kinds statements = p.written.map Block.kind := by
  obtain ⟨statements, nested, same⟩ := exists_nest_tokens [] [] p.blocks
  refine ⟨statements, nested, ?_⟩
  rw [same, Program.written, List.map_flatten]
  rfl

/-- Programs with the same tokens are written out to blocks of the same kinds. -/
theorem written_kinds_eq {p q : Program} (same : tokens 0 p.blocks = tokens 0 q.blocks) :
    p.written.map Block.kind = q.written.map Block.kind := by
  obtain ⟨statements, nested, kinds⟩ := exists_nest_program p
  obtain ⟨statements', nested', kinds'⟩ := exists_nest_program q
  rw [same, nested', Option.some_inj] at nested
  rw [← kinds, ← kinds', nested]

end Script

namespace Listing.Style

open Script

/-! ## Wording -/

/-- How a style words a call. -/
def callLine (s : Style) : Call → String
  | .moveForward => s.forward
  | .turnLeft => s.turnLeft
  | .turnRight => s.turnRight
  | .wait => s.wait

/-- How a style words a token, if it does. -/
def wording (s : Style) : Token → Option String
  | .call c => some (s.callLine c)
  | .opening times => some (s.repeatLine times)
  | .closing => s.endLine

/-- The line of a token at its depth, if there is one. -/
def line? (s : Style) (x : Nat × Token) : Option Line := (s.wording x.2).map (⟨x.1, ·⟩)

theorem endLines_eq (s : Style) (depth : Nat) :
    s.endLines depth = (s.line? (depth, .closing)).toList := by
  rw [endLines, line?, wording]
  cases s.endLine <;> rfl

theorem lines_eq (s : Style) (depth : Nat) (bs : List Block) :
    s.lines depth bs = (indented depth (tokens depth bs)).filterMap s.line? := by
  have filterMap_closing (depth : Nat) (l : List (Nat × Token)) :
      ((depth, Token.closing) :: l).filterMap s.line? =
        s.endLines depth ++ l.filterMap s.line? := by
    rw [endLines_eq, List.filterMap_cons]
    cases s.line? (depth, .closing) <;> rfl
  induction bs generalizing depth with
  | nil =>
    rw [lines, tokens]
    induction depth with
    | zero => rfl
    | succ depth ih =>
      rw [closeLines, ih, List.replicate_succ, indented, filterMap_closing, Nat.add_sub_cancel]
  | cons b rest ih =>
    cases kind : b.kind with
    | repeatEnd =>
      cases depth with
      | zero => simp only [lines, tokens, kind, ih]
      | succ depth =>
        simp only [lines, tokens, kind, ih]
        rw [indented, filterMap_closing, Nat.add_sub_cancel]
    | _ =>
      simp only [lines, tokens, kind, ih]
      rfl

end Listing.Style

end Labyrinth
