import Labyrinth.Proofs.Listing.Legible
import Labyrinth.Proofs.Run.History

/-!
# The script does what the machine does

**Theorem (`script_makes_the_calls`).** The JavaScript listing of a program is one function whose
braces match, inside and out. Its body can be read, and the calls that it makes are the blocks of
the program written out, in their order. A run of the machine comes to these blocks, to all of them
unless a wall ends it.

**Reading.** The lines of the body are split and read one by one (`tokens?_body`); each is the
wording of a token and is read back as that token (`token?_wording`). How tokens nest is the matter
of `Labyrinth.Proofs.Listing.Tokens`.

**Braces.** Only the heads and the ends of loops have braces, one each (`filter_isBrace_line`), and
the tokens close each loop.
-/

namespace Labyrinth

namespace Script

open Listing

variable {t : Token} {ts : List Token} {text : String} {depth : Nat}

/-! ## Reading lines -/

theorem loopTimes?_head (times : Nat) :
    loopTimes? (javaScript.repeatLine times).toList = some times := by
  have digits : Text.spanDigits (Nat.toDigits 10 times ++ "; i++) \x7b".toList) =
      (Nat.toDigits 10 times, "; i++) \x7b".toList) := by
    apply Text.spanDigits_append fun c => Text.isDigit_of_mem_toDigits
    intro c first
    cases first
    decide
  rw [javaScript_regular.toList_repeatLine, loopTimes?]
  simp only [List.drop_left, digits, Text.natural?_toDigits]
  exact if_pos ⟨List.isPrefixOf_iff_prefix.2 (List.prefix_append _ _), trivial⟩

/-- **A line is read back as the token that it words.** -/
theorem token?_wording (worded : text ∈ javaScript.wording t) : token? text.toList = some t := by
  cases t with
  | call c =>
    obtain rfl := Option.some.inj worded
    cases c <;> decide
  | closing =>
    obtain rfl := Option.some.inj worded
    decide
  | opening times =>
    obtain rfl := Option.some.inj worded
    have head : (javaScript.repeatLine times).toList ≠ "\x7d".toList := by
      intro same
      have first := javaScript_regular.head?_repeatLine times
      rw [same] at first
      exact absurd first (by decide)
    rw [token?, if_neg head, loopTimes?_head]
    rfl

theorem exists_line (x : Nat × Token) :
    ∃ text ∈ javaScript.wording x.2, javaScript.line? x = some ⟨x.1, text⟩ := by
  obtain ⟨depth, t⟩ := x
  cases t with
  | call c => exact ⟨_, rfl, rfl⟩
  | opening times => exact ⟨_, rfl, rfl⟩
  | closing => exact ⟨_, rfl, rfl⟩

theorem mapM_token?_lines (l : List (Nat × Token)) :
    ((l.filterMap javaScript.line?).map (·.text.toList)).mapM token? = some (l.map Prod.snd) := by
  induction l with
  | nil => rfl
  | cons x rest ih =>
    obtain ⟨text, worded, line⟩ := exists_line x
    rw [List.filterMap_cons_some line, List.map_cons, List.mapM_cons, token?_wording worded, ih]
    rfl

theorem map_snd_indented (depth : Nat) (ts : List Token) :
    (indented depth ts).map Prod.snd = ts := by
  induction ts generalizing depth with
  | nil => rfl
  | cons t rest ih => cases t <;> rw [indented, List.map_cons, ih]

theorem tokens?_body {ls : List Line} (plain : ∀ l ∈ ls, Plain l.text) :
    tokens? ("\n" ++ String.join (ls.map javaScript.lineText)) =
      (ls.map (·.text.toList)).mapM token? := by
  have lines : ("\n" ++ String.join (ls.map javaScript.lineText)).toList.splitOn '\n' =
      [] :: (ls.map javaScript.lineChars ++ [[]]) := by
    rw [String.toList_append, ← javaScript_regular.legible.splitOn_lines plain]
    exact List.splitOn_append_cons_self_of_not_mem List.not_mem_nil _
  have texts : ((ls.map javaScript.lineChars).map (·.dropWhile (· = ' '))) =
      ls.map (·.text.toList) := by
    rw [List.map_map]
    exact List.map_congr_left fun l mem => Style.dropWhile_lineChars (plain l mem)
  have filled : (ls.map (·.text.toList)).filter (· ≠ []) = ls.map (·.text.toList) := by
    refine List.filter_eq_self.2 fun cs mem => decide_eq_true ?_
    obtain ⟨l, listed, rfl⟩ := List.mem_map.1 mem
    exact (plain l listed).toList_ne_nil
  have blank : (([] : List Char).dropWhile (· = ' ')) = [] := rfl
  simp only [tokens?, lines, List.map_cons, List.map_append, texts, List.filter_append,
    List.map_nil, blank, List.filter_cons, List.filter_nil, filled]
  simp

/-! ## Braces -/

def isBrace (c : Char) : Bool := c = '\x7b' || c = '\x7d'

theorem bracesMatch_filter (depth : Nat) (cs : List Char) :
    bracesMatch depth (cs.filter isBrace) = bracesMatch depth cs := by
  induction cs generalizing depth with
  | nil => rfl
  | cons c rest ih =>
    by_cases opens : c = '\x7b'
    · rw [List.filter_cons_of_pos (by simp [isBrace, opens]), bracesMatch, bracesMatch,
        if_pos opens, if_pos opens, ih]
    · by_cases ends : c = '\x7d'
      · rw [List.filter_cons_of_pos (by simp [isBrace, ends]), bracesMatch, bracesMatch,
          if_neg opens, if_neg opens, if_pos ends, if_pos ends]
        cases depth with
        | zero => rfl
        | succ depth => exact ih depth
      · rw [List.filter_cons_of_neg (by simp [isBrace, opens, ends]), ih, bracesMatch,
          if_neg opens, if_neg ends]

/-- The braces of a token. -/
def braces : Token → List Char
  | .call _ => []
  | .opening _ => ['\x7b']
  | .closing => ['\x7d']

theorem filter_isBrace_wording (worded : text ∈ javaScript.wording t) :
    text.toList.filter isBrace = braces t := by
  cases t with
  | call c =>
    obtain rfl := Option.some.inj worded
    cases c <;> decide
  | closing =>
    obtain rfl := Option.some.inj worded
    decide
  | opening times =>
    obtain rfl := Option.some.inj worded
    have digits : (Nat.toDigits 10 times).filter isBrace = [] := by
      refine List.filter_eq_nil_iff.2 fun c mem brace => ?_
      have digit := Text.isDigit_of_mem_toDigits mem
      rw [isBrace, Bool.or_eq_true, decide_eq_true_eq, decide_eq_true_eq] at brace
      rcases brace with rfl | rfl <;> cases digit
    rw [javaScript_regular.toList_repeatLine, List.filter_append, List.filter_append, digits]
    rfl

theorem filter_isBrace_lines (l : List (Nat × Token)) :
    (String.join ((l.filterMap javaScript.line?).map javaScript.lineText)).toList.filter isBrace =
      (l.map Prod.snd).flatMap braces := by
  rw [String.toList_join]
  induction l with
  | nil => rfl
  | cons x rest ih =>
    obtain ⟨text, worded, line⟩ := exists_line x
    have blank (n : Nat) : (List.replicate n ' ').filter isBrace = [] :=
      List.filter_eq_nil_iff.2 fun c mem => by rw [List.eq_of_mem_replicate mem]; decide
    rw [List.filterMap_cons_some line, List.map_cons, List.flatMap_cons, List.filter_append, ih,
      javaScript_regular.legible.toList_lineText, Style.lineChars, List.filter_append,
      List.filter_append, blank, filter_isBrace_wording worded, List.nil_append, List.map_cons,
      List.flatMap_cons]
    exact congrArg (· ++ _) (List.append_nil _)

/-- The braces of tokens match where the tokens close each loop. -/
theorem Closes.bracesMatch (h : Closes depth ts) (n : Nat) (rest : List Char) :
    bracesMatch (depth + n) (ts.flatMap braces ++ rest) = Script.bracesMatch n rest := by
  induction h with
  | nil => rw [Nat.zero_add]; rfl
  | call c _ ih => exact ih
  | opening times _ ih =>
    rw [Nat.add_right_comm] at ih
    exact ih
  | closing _ ih =>
    rw [Nat.add_right_comm]
    exact ih

/-! ## Calls -/

/-- A run comes to the blocks written out one after the other, and to all of them unless a wall ends
it. -/
theorem kinds_runPositions {p : Program} {m : Maze} {positions : List Nat} {bs : List Block}
    (stands : positions.map (p.blocks[·]?) = bs.map some) (r : Robot) :
    let u := p.runPositions m positions r
    u.entries.map (·.blockKind) <+: bs.map Block.kind ∧
      (u.outcome ≠ .wallCollision → u.entries.map (·.blockKind) = bs.map Block.kind) := by
  induction positions generalizing bs r with
  | nil =>
    obtain rfl : bs = [] := List.map_eq_nil_iff.1 stands.symm
    exact ⟨List.prefix_rfl, fun _ => rfl⟩
  | cons i rest ih =>
    obtain ⟨b, bs, rfl, found, later⟩ := List.map_eq_cons_iff.1 stands.symm
    cases acts : b.kind.act m r with
    | none =>
      simp only [Program.runPositions, ← found, acts]
      exact ⟨by simp [TraceEntry.blocked], fun ends => absurd rfl ends⟩
    | some after =>
      obtain ⟨begins, all⟩ := ih later.symm after
      simp only [Program.runPositions, ← found, acts, List.map_cons]
      exact ⟨(List.prefix_cons_inj _).2 begins, fun ends => congrArg (b.kind :: ·) (all ends)⟩

theorem kinds_history (p : Plan) (robot : Robot) :
    let came := (p.history robot).map (·.blockKind)
    came <+: p.program.written.map Block.kind ∧
      ((p.execute robot).verdict.outcome = .success ∨
          (p.execute robot).verdict.outcome = .goalNotReached →
        came = p.program.written.map Block.kind) := by
  by_cases long : p.OverBudget
  · rw [Plan.history_of_overBudget long, Plan.execute_of_overBudget long]
    exact ⟨List.nil_prefix, fun ends => by rcases ends with h | h <;> cases h⟩
  · obtain ⟨begins, all⟩ := kinds_runPositions (m := p.maze) p.program.map_expansion robot
    rw [Plan.history_of_within long, (Plan.verdict_of_within long robot).1]
    refine ⟨begins, fun ends => all fun wall => ?_⟩
    rcases ends with h | h <;> cases h.symm.trans wall

end Script

open Script Listing

/-- **The script makes the calls that a run of the program comes to.** -/
theorem Program.script_makes_the_calls (p : Program) :
    ∃ (body : String) (statements : List Statement),
      javaScript.text p =
        "// RoboMaze Program\n\nfunction solveMaze() \x7b" ++ body ++
          "\x7d\n\n// Run the solution\nsolveMaze();\n" ∧
      bracesMatch 0 (javaScript.text p).toList = true ∧ bracesMatch 0 body.toList = true ∧
      read? body = some statements ∧
      let calls := (Statement.callsAll statements).map Call.kind
      p.expansion.map (fun i => p.blocks[i]?.map Block.kind) = calls.map some ∧
      ∀ (m : Maze) (config : RunConfig) (robot : Robot),
        let plan := Plan.of m p config
        let came := (plan.history robot).map (·.blockKind)
        let outcome := (plan.execute robot).verdict.outcome
        came <+: calls ∧ (outcome = .success ∨ outcome = .goalNotReached → came = calls) := by
  let marks := indented 0 (tokens 0 p.blocks)
  let lines := String.join ((marks.filterMap javaScript.line?).map javaScript.lineText)
  have said : marks.map Prod.snd = tokens 0 p.blocks := map_snd_indented 0 _
  have listed : javaScript.programLines p = marks.filterMap javaScript.line? := by
    rw [Style.programLines_eq rfl, Style.lines_eq]
  have text : javaScript.text p =
      "// RoboMaze Program\n\nfunction solveMaze() \x7b" ++ ("\n" ++ lines) ++
        "\x7d\n\n// Run the solution\nsolveMaze();\n" := by
    rw [Style.text, listed, ← String.append_assoc]
    rfl
  have braces : ("\n" ++ lines).toList.filter isBrace =
      (tokens 0 p.blocks).flatMap Script.braces := by
    rw [String.toList_append, List.filter_append, filter_isBrace_lines, said]
    rfl
  have closes := closes_tokens 0 p.blocks
  obtain ⟨statements, nested, kinds⟩ := exists_nest_program p
  rw [Script.kinds] at kinds
  refine ⟨"\n" ++ lines, statements, text, ?_, ?_, ?_, ?_, ?_⟩
  · have head : "// RoboMaze Program\n\nfunction solveMaze() \x7b".toList.filter isBrace =
        ['\x7b'] := by decide
    have foot : "\x7d\n\n// Run the solution\nsolveMaze();\n".toList.filter isBrace =
        ['\x7d'] := by decide
    rw [← bracesMatch_filter, text, String.toList_append, String.toList_append,
      List.filter_append, List.filter_append, braces, head, foot]
    exact closes.bracesMatch 1 ['\x7d']
  · rw [← bracesMatch_filter, braces, ← List.append_nil (List.flatMap _ _)]
    exact closes.bracesMatch 0 []
  · have plain := javaScript_regular.legible.plain_programLines p
    rw [listed] at plain
    rw [read?, tokens?_body plain, mapM_token?_lines, said]
    exact nested
  · have blocks := congrArg (List.map (Option.map Block.kind)) p.map_expansion
    rw [List.map_map, List.map_map] at blocks
    rw [kinds, List.map_map]
    exact blocks
  · intro m config robot
    rw [kinds]
    exact kinds_history (Plan.of m p config) robot

/-- A stray closing bracket, a repeat of zero times, and an unclosed repeat without a count, which
brings the robot to the goal. -/
theorem Program.script_makes_the_calls_corridor :
    let m : Maze := .close ⟨3, 1⟩ .origin ⟨2, 0⟩ [] (by decide) (by decide) (by decide) (by decide)
    let p : Program := ⟨[⟨"a", .repeatEnd, none⟩, ⟨"b", .repeatStart, some 0⟩, ⟨"c", .wait, none⟩,
      ⟨"d", .repeatEnd, none⟩, ⟨"e", .repeatStart, none⟩, ⟨"f", .forward, none⟩]⟩
    let plan := Plan.of m p {}
    (plan.execute ⟨.origin, .right⟩).verdict.outcome = .success ∧
      ∃ body statements, read? body = some statements ∧
        (Statement.callsAll statements).map Call.kind = [.forward, .forward] ∧
        (plan.history ⟨.origin, .right⟩).map (·.blockKind) = [.forward, .forward] := by
  intro m p plan
  have outcome : ((Plan.of m p {}).execute ⟨.origin, .right⟩).verdict.outcome = .success := by
    decide
  obtain ⟨body, statements, -, -, -, read, blocks, runs⟩ := p.script_makes_the_calls
  have expansion : p.expansion.map (fun i => p.blocks[i]?.map Block.kind) =
      [BlockKind.forward, .forward].map some := by decide
  have calls : (Statement.callsAll statements).map Call.kind = [.forward, .forward] :=
    (List.map_inj_right fun _ _ => Option.some.inj).1 (blocks.symm.trans expansion)
  have all := (runs m {} ⟨.origin, .right⟩).2
  exact ⟨by decide, body, statements, read, calls, (all (.inl outcome)).trans calls⟩

end Labyrinth
