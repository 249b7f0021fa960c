import Labyrinth.Proofs.Listing.Tokens
import Labyrinth.Proofs.Text
import Mathlib.Data.List.Nodup

/-!
# Legible listings

**Theorem (`Style.Legible.tokens_eq`).** In a legible style the listing of a program shows its
tokens: programs with one listing have the same tokens.

A style is legible (`Style.Legible`) if the indentation is made of blanks, the text of a line begins
with something else, and no two tokens are worded alike. Then a listing is split into its lines at
the ends of lines (`splitOn_lines`), a line into its depth and its text at the first character that
is no blank (`eq_of_lineChars_eq`), and the ends of repeats, if they are not written, follow from
the depths.

The three styles are legible (`Style.Regular.legible`): the head of a repeat begins like no other
line and has its count between two fixed texts.
-/

namespace Labyrinth.Listing

open Script

/-- A text that can stand on a line behind blanks: it begins with something else, and no line ends
in it. -/
def Plain (text : String) : Prop := text.toList.head?.any (· ≠ ' ') ∧ '\n' ∉ text.toList

instance (text : String) : Decidable (Plain text) := inferInstanceAs (Decidable (_ ∧ _))

theorem Plain.toList_ne_nil {text : String} (plain : Plain text) : text.toList ≠ [] := by
  intro nothing
  have first := plain.1
  rw [nothing] at first
  cases first

namespace Style

/-- The lines of a style can be told apart. -/
structure Legible (s : Style) : Prop where
  blank : s.indent.toList = List.replicate s.indent.length ' '
  pos : 0 < s.indent.length
  plain : ∀ t, ∀ text ∈ s.wording t, Plain text
  distinct : ∀ t t', ∀ text ∈ s.wording t, text ∈ s.wording t' → t = t'
  /-- The line of a program without blocks is none of those that blocks have. -/
  empty : ∀ text ∈ s.emptyLine, Plain text ∧ ∀ t, text ∉ s.wording t

variable {s : Style} {p q : Program}

/-! ## From the text to the lines -/

/-- The characters of a line without its end. -/
def lineChars (s : Style) (l : Line) : List Char :=
  List.replicate ((s.baseLevel + l.depth) * s.indent.length) ' ' ++ l.text.toList

theorem Legible.toList_lineText (h : s.Legible) (l : Line) :
    (s.lineText l).toList = s.lineChars l ++ ['\n'] := by
  rw [lineText, String.toList_append, String.toList_append, String.toList_join,
    List.flatMap_replicate, h.blank, List.flatten_replicate_replicate]
  rfl

theorem dropWhile_lineChars {l : Line} (plain : Plain l.text) :
    (s.lineChars l).dropWhile (· = ' ') = l.text.toList := by
  rw [lineChars, List.dropWhile_append_of_pos (by simp)]
  obtain ⟨first, -⟩ := plain
  cases chars : l.text.toList with
  | nil => rfl
  | cons c rest =>
    rw [chars] at first
    exact List.dropWhile_cons_of_neg (by simpa using first)

theorem takeWhile_lineChars {l : Line} (plain : Plain l.text) :
    (s.lineChars l).takeWhile (· = ' ') =
      List.replicate ((s.baseLevel + l.depth) * s.indent.length) ' ' := by
  rw [lineChars, List.takeWhile_append_of_pos (by simp)]
  obtain ⟨first, -⟩ := plain
  cases chars : l.text.toList with
  | nil => rw [List.takeWhile_nil, List.append_nil]
  | cons c rest =>
    rw [chars] at first
    rw [List.takeWhile_cons_of_neg (by simpa using first), List.append_nil]

/-- The characters of a line show its depth and its text. -/
theorem Legible.eq_of_lineChars_eq (h : s.Legible) {l l' : Line} (plain : Plain l.text)
    (plain' : Plain l'.text) (same : s.lineChars l = s.lineChars l') : l = l' := by
  have text := congrArg (List.dropWhile (· = ' ')) same
  have depth := congrArg (fun cs => (List.takeWhile (· = ' ') cs).length) same
  rw [dropWhile_lineChars plain, dropWhile_lineChars plain', String.toList_inj] at text
  simp only [takeWhile_lineChars plain, takeWhile_lineChars plain', List.length_replicate] at depth
  have level := Nat.add_left_cancel (Nat.eq_of_mul_eq_mul_right h.pos depth)
  cases l
  cases l'
  rw [Line.mk.injEq]
  exact ⟨level, text⟩

/-- Split at the ends of lines, a listing is its lines and what stands behind the last. -/
theorem Legible.splitOn_lines_append (h : s.Legible) {ls : List Line}
    (plain : ∀ l ∈ ls, Plain l.text) (rest : List Char) :
    ((String.join (ls.map s.lineText)).toList ++ rest).splitOn '\n' =
      ls.map s.lineChars ++ rest.splitOn '\n' := by
  have inside : ∀ chars ∈ ls.map s.lineChars, '\n' ∉ chars := by
    intro chars mem
    obtain ⟨l, listed, rfl⟩ := List.mem_map.1 mem
    rw [lineChars, List.mem_append, List.mem_replicate]
    rintro (⟨-, blank⟩ | mem)
    · cases blank
    · exact (plain l listed).2 mem
  rw [← Text.splitOn_ended_append inside, String.toList_join, List.flatMap_map, List.flatMap_map]
  simp only [h.toList_lineText]

theorem Legible.splitOn_lines (h : s.Legible) {ls : List Line} (plain : ∀ l ∈ ls, Plain l.text) :
    (String.join (ls.map s.lineText)).toList.splitOn '\n' = ls.map s.lineChars ++ [[]] := by
  have split := h.splitOn_lines_append plain []
  rwa [List.append_nil] at split

theorem Legible.eq_of_join_eq (h : s.Legible) {ls ls' : List Line} (plain : ∀ l ∈ ls, Plain l.text)
    (plain' : ∀ l ∈ ls', Plain l.text)
    (same : String.join (ls.map s.lineText) = String.join (ls'.map s.lineText)) : ls = ls' := by
  have chars : ls.map s.lineChars = ls'.map s.lineChars := by
    apply List.append_cancel_right
    rw [← h.splitOn_lines plain, ← h.splitOn_lines plain', same]
  clear same
  induction ls generalizing ls' with
  | nil => exact (List.map_eq_nil_iff.1 chars.symm).symm
  | cons l rest ih =>
    obtain ⟨l', rest', rfl, line, later⟩ := List.map_eq_cons_iff.1 chars.symm
    rw [List.forall_mem_cons] at plain plain'
    rw [h.eq_of_lineChars_eq plain.1 plain'.1 line.symm, ih plain.2 plain'.2 later.symm]

/-! ## From the lines to the tokens -/

theorem mem_lines {l : Line} {depth : Nat} {bs : List Block} (mem : l ∈ s.lines depth bs) :
    ∃ t, l.text ∈ s.wording t := by
  rw [lines_eq, List.mem_filterMap] at mem
  obtain ⟨⟨depth, t⟩, -, line⟩ := mem
  obtain ⟨said, worded, rfl⟩ := Option.map_eq_some_iff.1 line
  exact ⟨t, worded⟩

theorem Legible.plain_programLines (h : s.Legible) (p : Program) :
    ∀ l ∈ s.programLines p, Plain l.text := by
  intro l mem
  rw [programLines] at mem
  split at mem
  · obtain ⟨only, standsFor, rfl⟩ := List.mem_map.1 mem
    exact (h.empty only (Option.mem_toList.1 standsFor)).1
  · obtain ⟨t, worded⟩ := mem_lines mem
    exact h.plain t l.text worded

/-- The lines that blocks have are those that do not stand for a program without blocks. -/
theorem Legible.filter_programLines (h : s.Legible) (p : Program) :
    (s.programLines p).filter (some ·.text ≠ s.emptyLine) = s.lines 0 p.blocks := by
  rw [programLines]
  split
  · rename_i empty
    rw [Program.isEmpty, List.isEmpty_iff] at empty
    rw [empty]
    cases s.emptyLine with
    | none => rfl
    | some text => simp [lines, closeLines]
  · refine List.filter_eq_self.2 fun l mem => decide_eq_true fun same => ?_
    obtain ⟨t, worded⟩ := mem_lines mem
    exact (h.empty l.text same.symm).2 t worded

/-- The lines show the tokens that end no repeat, and their depths. -/
theorem Legible.noted_eq (h : s.Legible) {l l' : List (Nat × Token)}
    (same : l.filterMap s.line? = l'.filterMap s.line?) :
    l.filter (·.2 ≠ .closing) = l'.filter (·.2 ≠ .closing) := by
  have unlined {x : Nat × Token} (none : s.line? x = none) : ¬ (x.2 ≠ .closing) := by
    obtain ⟨depth, t⟩ := x
    cases t with
    | closing => simp
    | _ => cases none
  have lined {x x' : Nat × Token} {line : Line} (hx : s.line? x = some line)
      (hx' : s.line? x' = some line) : x = x' := by
    obtain ⟨said, worded, rfl⟩ := Option.map_eq_some_iff.1 hx
    obtain ⟨said', worded', line⟩ := Option.map_eq_some_iff.1 hx'
    obtain ⟨depth, rfl⟩ := Line.mk.inj line
    exact Prod.ext depth.symm (h.distinct x.2 x'.2 said' worded worded')
  induction l generalizing l' with
  | nil =>
    refine (List.filter_eq_nil_iff.2 fun x mem => ?_).symm
    simpa using unlined (List.filterMap_eq_nil_iff.1 same.symm x mem)
  | cons x rest ih =>
    cases hx : s.line? x with
    | none =>
      rw [List.filterMap_cons_none hx] at same
      rw [List.filter_cons_of_neg (by simpa using unlined hx), ih same]
    | some line =>
      rw [List.filterMap_cons_some hx] at same
      obtain ⟨before, x', rest', rfl, unseen, hx', later⟩ := List.filterMap_eq_cons_iff.1 same.symm
      obtain rfl := lined hx hx'
      have nothing : before.filter (·.2 ≠ .closing) = [] :=
        List.filter_eq_nil_iff.2 fun x mem => by simpa using unlined (unseen x mem)
      rw [List.filter_append, nothing, List.nil_append, List.filter_cons, List.filter_cons,
        ih later.symm]

/-- **Programs with one listing have the same tokens.** -/
theorem Legible.tokens_eq (h : s.Legible) (same : s.text p = s.text q) :
    tokens 0 p.blocks = tokens 0 q.blocks := by
  have listed : s.programLines p = s.programLines q := by
    apply h.eq_of_join_eq (h.plain_programLines p) (h.plain_programLines q)
    rw [text, text, ← String.toList_inj] at same
    simp only [String.toList_append, List.append_assoc, List.append_cancel_left_eq,
      List.append_cancel_right_eq, String.toList_inj] at same
    exact same
  have lines : s.lines 0 p.blocks = s.lines 0 q.blocks := by
    rw [← h.filter_programLines, ← h.filter_programLines, listed]
  rw [lines_eq, lines_eq] at lines
  exact eq_of_noted_eq (closes_tokens 0 p.blocks) (closes_tokens 0 q.blocks) (h.noted_eq lines)

/-- Where a program without blocks needs no line, the lines are those of the blocks. -/
theorem programLines_eq (bare : s.emptyLine = none) (p : Program) :
    s.programLines p = s.lines 0 p.blocks := by
  rw [programLines]
  split
  · rename_i empty
    rw [Program.isEmpty, List.isEmpty_iff] at empty
    rw [empty, bare]
    rfl
  · rfl

theorem text_congr (bare : s.emptyLine = none) (same : tokens 0 p.blocks = tokens 0 q.blocks) :
    s.text p = s.text q := by
  rw [text, text, programLines_eq bare, programLines_eq bare, lines_eq, lines_eq, same]

/-! ## Styles -/

/-- The texts that a style puts on lines, but for the heads of repeats. -/
def words (s : Style) : List String :=
  Call.all.map s.callLine ++ (s.endLine.toList ++ s.emptyLine.toList)

theorem callLine_mem_words (s : Style) (c : Call) : s.callLine c ∈ s.words :=
  List.mem_append_left _ (List.mem_map_of_mem c.mem_all)

theorem mem_words_of_endLine {text : String} (h : text ∈ s.endLine) : text ∈ s.words :=
  List.mem_append_right _ (List.mem_append_left _ (Option.mem_toList.2 h))

theorem mem_words_of_emptyLine {text : String} (h : text ∈ s.emptyLine) : text ∈ s.words :=
  List.mem_append_right _ (List.mem_append_right _ (Option.mem_toList.2 h))

/-- The texts of a style differ, and the head of a repeat, which begins like none of them, has its
count between two fixed texts. -/
structure Regular (s : Style) (front back : String) : Prop where
  blank : s.indent.toList = List.replicate s.indent.length ' '
  pos : 0 < s.indent.length
  head : ∀ n, s.repeatLine n = front ++ n.repr ++ back
  plainFront : Plain front
  plainBack : '\n' ∉ back.toList
  nodup : s.words.Nodup
  other : ∀ text ∈ s.words, Plain text ∧ text.toList.head? ≠ front.toList.head?

namespace Regular

variable {front back text : String}

theorem toList_repeatLine (h : s.Regular front back) (n : Nat) :
    (s.repeatLine n).toList = front.toList ++ (Nat.toDigits 10 n ++ back.toList) := by
  rw [h.head, String.toList_append, String.toList_append, Nat.toList_repr, List.append_assoc]

theorem head?_repeatLine (h : s.Regular front back) (n : Nat) :
    (s.repeatLine n).toList.head? = front.toList.head? := by
  obtain ⟨c, first, -⟩ := (Option.any_eq_true _ _).1 h.plainFront.1
  rw [h.toList_repeatLine, List.head?_append, first, Option.some_or]

theorem plain_repeatLine (h : s.Regular front back) (n : Nat) : Plain (s.repeatLine n) := by
  refine ⟨by rw [h.head?_repeatLine]; exact h.plainFront.1, ?_⟩
  rw [h.toList_repeatLine, List.mem_append, List.mem_append]
  rintro (mem | mem | mem)
  · exact h.plainFront.2 mem
  · cases Text.isDigit_of_mem_toDigits mem
  · exact h.plainBack mem

theorem repeatLine_inj (h : s.Regular front back) {n m : Nat}
    (same : s.repeatLine n = s.repeatLine m) : n = m := by
  rw [← String.toList_inj, h.toList_repeatLine, h.toList_repeatLine] at same
  exact Text.toDigits_inj (List.append_cancel_right (List.append_cancel_left same))

theorem repeatLine_notMem (h : s.Regular front back) (n : Nat) : s.repeatLine n ∉ s.words :=
  fun mem => (h.other _ mem).2 (h.head?_repeatLine n)

theorem callLine_inj (h : s.Regular front back) {c c' : Call}
    (same : s.callLine c = s.callLine c') : c = c' := by
  have calls := (List.nodup_append.1 h.nodup).1
  exact List.inj_on_of_nodup_map calls c.mem_all c'.mem_all same

theorem callLine_notMem (h : s.Regular front back) (c : Call) :
    s.callLine c ∉ s.endLine.toList ++ s.emptyLine.toList := fun mem =>
  (List.nodup_append.1 h.nodup).2.2 _ (List.mem_map_of_mem c.mem_all) _ mem rfl

theorem endLine_notMem (h : s.Regular front back) (ends : text ∈ s.endLine) :
    text ∉ s.emptyLine := fun empty =>
  (List.nodup_append.1 (List.nodup_append.1 h.nodup).2.1).2.2 _ (Option.mem_toList.2 ends) _
    (Option.mem_toList.2 empty) rfl

theorem distinct (h : s.Regular front back) {t t' : Token} (worded : text ∈ s.wording t)
    (worded' : text ∈ s.wording t') : t = t' := by
  have notHead (n : Nat) (mem : text ∈ s.words) (same : s.repeatLine n = text) : False :=
    h.repeatLine_notMem n (same ▸ mem)
  have notCall (c : Call) (ends : text ∈ s.endLine) (same : s.callLine c = text) : False :=
    h.callLine_notMem c (List.mem_append_left _ (Option.mem_toList.2 (same ▸ ends)))
  have call {c : Call} (same : s.callLine c = text) : text ∈ s.words :=
    same ▸ s.callLine_mem_words c
  cases t with
  | call c =>
    have said : s.callLine c = text := Option.some.inj worded
    cases t' with
    | call c' => rw [h.callLine_inj (said.trans (Option.some.inj worded').symm)]
    | opening n => exact (notHead n (call said) (Option.some.inj worded')).elim
    | closing => exact (notCall c worded' said).elim
  | opening n =>
    have said : s.repeatLine n = text := Option.some.inj worded
    cases t' with
    | call c => exact (notHead n (call (Option.some.inj worded')) said).elim
    | opening n' => rw [h.repeatLine_inj (said.trans (Option.some.inj worded').symm)]
    | closing => exact (notHead n (mem_words_of_endLine worded') said).elim
  | closing =>
    cases t' with
    | call c => exact (notCall c worded (Option.some.inj worded')).elim
    | opening n => exact (notHead n (mem_words_of_endLine worded) (Option.some.inj worded')).elim
    | closing => rfl

theorem legible (h : s.Regular front back) : s.Legible where
  blank := h.blank
  pos := h.pos
  plain t text worded := by
    cases t with
    | call c =>
      obtain rfl := Option.some.inj worded
      exact (h.other _ (s.callLine_mem_words c)).1
    | opening n =>
      obtain rfl := Option.some.inj worded
      exact h.plain_repeatLine n
    | closing => exact (h.other _ (mem_words_of_endLine worded)).1
  distinct _ _ _ := h.distinct
  empty text empty := by
    refine ⟨(h.other _ (mem_words_of_emptyLine empty)).1, fun t worded => ?_⟩
    cases t with
    | call c =>
      obtain rfl := Option.some.inj worded
      exact h.callLine_notMem c (List.mem_append_right _ (Option.mem_toList.2 empty))
    | opening n =>
      obtain rfl := Option.some.inj worded
      exact h.repeatLine_notMem n (mem_words_of_emptyLine empty)
    | closing => exact h.endLine_notMem worded empty

end Regular

end Style

theorem pseudocode_regular : pseudocode.Regular "Repeat " " times:" :=
  ⟨by decide, by decide, fun _ => rfl, by decide, by decide, by decide, by decide⟩

theorem python_regular : python.Regular "for _ in range(" "):" :=
  ⟨by decide, by decide, fun _ => rfl, by decide, by decide, by decide, by decide⟩

theorem javaScript_regular : javaScript.Regular "for (let i = 0; i < " "; i++) \x7b" :=
  ⟨by decide, by decide, fun _ => rfl, by decide, by decide, by decide, by decide⟩

end Labyrinth.Listing
