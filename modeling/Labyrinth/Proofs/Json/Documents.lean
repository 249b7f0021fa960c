import Labyrinth.Proofs.Json.Numbers
import Labyrinth.Proofs.Json.Strings

/-!
# Written documents are read back

**Theorem (`Writable.read_write`).** A document that is nested no deeper than is allowed, whose
parts all stand for values and whose numbers are integers of moderate size is read back from its
written form, and nothing is left of the text.

**Writable** (`Json.Writable`). What this asks of a document, with the room for nesting.

**Reading a part** (`Reads`). A part is read from its written form in front of anything that can
follow it, if there is fuel for twice its characters. Strings and numbers are read so by themselves;
of a list and of an object, one item or member is read and then those behind the comma
(`items_written`, `members_written`).
-/

namespace Labyrinth.Json

variable {j : Json} {room fuel : Nat} {rest : List Char}

/-- A document that can be written and read back, with room for a number of nested lists and
objects. -/
inductive Writable : Nat → Json → Prop
  | null {room : Nat} : Writable room .null
  | bool {room : Nat} (b : Bool) : Writable room (.bool b)
  | int {room : Nat} {n : Int} (small : n.natAbs < significandLimit) : Writable room (.int n)
  | text {room : Nat} (s : String) : Writable room (.text s)
  | list {room : Nat} {items : List Json} (writable : ∀ j ∈ items, Writable room j) :
    Writable (room + 1) (.list items)
  | object {room : Nat} {members : Members} (keys : ∀ m ∈ members, m.1.isSome)
    (writable : ∀ m ∈ members, Writable room m.2) : Writable (room + 1) (.object members)

/-- A document is read from its written form in front of anything that can follow it. -/
def Reads (room : Nat) (j : Json) : Prop :=
  ∀ fuel rest, 2 * j.write.toList.length ≤ fuel + 1 → Ends rest →
    value (fuel + 1) room (j.write.toList ++ rest) = (j, some rest)

/-! ## Blanks -/

/-- The text begins with neither a blank nor a closing bracket. -/
def Begins (cs : List Char) : Prop :=
  ∃ c rest, cs = c :: rest ∧ c ∉ [' ', '\t', '\n', '\r', ']', '\x7d']

theorem Begins.cons {c : Char} (plain : c ∉ [' ', '\t', '\n', '\r', ']', '\x7d'])
    (rest : List Char) : Begins (c :: rest) :=
  ⟨c, rest, rfl, plain⟩

theorem Begins.append {cs : List Char} (h : Begins cs) (rest : List Char) :
    Begins (cs ++ rest) := by
  obtain ⟨c, tail, rfl, plain⟩ := h
  exact .cons plain (tail ++ rest)

theorem skipBlanks_cons {c : Char} (plain : c ∉ [' ', '\t', '\n', '\r']) (cs : List Char) :
    skipBlanks (c :: cs) = c :: cs := by
  simp only [List.mem_cons, List.not_mem_nil, or_false, not_or] at plain
  exact List.dropWhile_cons_of_neg (by simp [plain])

theorem Begins.skipBlanks {cs : List Char} (h : Begins cs) : skipBlanks cs = cs := by
  obtain ⟨c, tail, rfl, plain⟩ := h
  exact skipBlanks_cons (fun mem => plain (List.mem_append_left [']', '\x7d'] mem)) tail

/-! ## Plain values -/

theorem reads_null : Reads room .null := fun _ _ _ _ => rfl

theorem reads_bool (b : Bool) : Reads room (.bool b) := by
  intro fuel rest _ _
  cases b <;> rfl

theorem reads_text (s : String) : Reads room (.text s) := by
  intro fuel rest _ _
  have read := string?_written s rest
  rw [write, toList_writtenText, List.cons_append, List.append_assoc, List.singleton_append, value,
    skipBlanks_cons (by decide)]
  simp only [textValue, read]

/-- A number begins with none of the characters that announce another value. -/
theorem value_of_number {c : Char} {cs : List Char} {r : Json × List Char}
    (first : c = '-' ∨ c.isDigit) (read : number? (c :: cs) = some r) :
    value (fuel + 1) room (c :: cs) = (r.1, some r.2) := by
  have other (d : Char) (notFirst : ¬ (d = '-' ∨ d.isDigit)) : c ≠ d := by
    rintro rfl
    exact notFirst first
  have blank : c ∉ [' ', '\t', '\n', '\r'] := by
    simp only [List.mem_cons, List.not_mem_nil, or_false, not_or]
    exact ⟨other _ (by decide), other _ (by decide), other _ (by decide), other _ (by decide)⟩
  rw [value, skipBlanks_cons blank]
  split
  · next same => exact absurd (List.cons.inj same).1 (other _ (by decide))
  · next same => exact absurd (List.cons.inj same).1 (other _ (by decide))
  · next same => exact absurd (List.cons.inj same).1 (other _ (by decide))
  · unfold plainValue
    split
    · next same => exact absurd (List.cons.inj same).1 (other _ (by decide))
    · next same => exact absurd (List.cons.inj same).1 (other _ (by decide))
    · next same => exact absurd (List.cons.inj same).1 (other _ (by decide))
    · rw [read]

theorem exists_toString_eq_cons (n : Int) :
    ∃ c tail, (toString n).toList = c :: tail ∧ (c = '-' ∨ c.isDigit) := by
  cases n with
  | ofNat n =>
    have written : (toString (Int.ofNat n)).toList = Nat.toDigits 10 n := Nat.toList_repr
    obtain ⟨c, tail, digits⟩ := List.exists_cons_of_ne_nil (Nat.toDigits_ne_nil (n := n) (b := 10))
    refine ⟨c, tail, written.trans digits, .inr ?_⟩
    exact Text.isDigit_of_mem_toDigits (digits ▸ List.mem_cons_self)
  | negSucc n => exact ⟨'-', (n + 1).repr.toList, String.toList_append, .inl rfl⟩

theorem reads_int {n : Int} (small : n.natAbs < significandLimit) : Reads room (.int n) := by
  intro fuel rest _ ends
  have read := number?_toString small ends
  obtain ⟨c, tail, written, first⟩ := exists_toString_eq_cons n
  rw [written, List.cons_append] at read
  rw [write, written, List.cons_append, value_of_number first read]

/-! ## Lists and objects -/

theorem value_list {cs : List Char} (begins : Begins cs) :
    value (fuel + 1) (room + 1) ('[' :: cs) =
      (.list (items fuel room cs).1, (items fuel room cs).2) := by
  have first := begins.skipBlanks
  obtain ⟨c, tail, rfl, plain⟩ := begins
  simp only [List.mem_cons, List.not_mem_nil, or_false, not_or] at plain
  rw [value, skipBlanks_cons (by decide)]
  simp only [fitInto, Nat.add_one_ne_zero, false_and, if_false, first]
  split
  · next same => exact absurd (List.cons.inj same).1 plain.2.2.2.2.1
  · rfl

theorem value_object {cs : List Char} (begins : Begins cs) :
    value (fuel + 1) (room + 1) ('\x7b' :: cs) =
      (.object (members fuel room cs).1, (members fuel room cs).2) := by
  have first := begins.skipBlanks
  obtain ⟨c, tail, rfl, plain⟩ := begins
  simp only [List.mem_cons, List.not_mem_nil, or_false, not_or] at plain
  rw [value, skipBlanks_cons (by decide)]
  simp only [fitInto, Nat.add_one_ne_zero, false_and, if_false, first]
  split
  · next same => exact absurd (List.cons.inj same).1 plain.2.2.2.2.2
  · rfl

/-- What follows the first of some texts that commas part and a bracket ends. -/
def tailText (close : Char) (texts : List (List Char)) : List Char :=
  texts.flatMap (',' :: ·) ++ [close]

theorem tailText_cons (close : Char) (text : List Char) (texts : List (List Char)) :
    tailText close (text :: texts) = ',' :: (text ++ tailText close texts) := by
  simp [tailText]

theorem intercalate_append (close : Char) (text : List Char) (texts : List (List Char)) :
    [','].intercalate (text :: texts) ++ [close] = text ++ tailText close texts := by
  induction texts generalizing text with
  | nil => simp [tailText]
  | cons next texts ih =>
    rw [List.intercalate_cons_cons, List.append_assoc, ih, tailText_cons, List.append_assoc]
    rfl

theorem writeItems_eq (items : List Json) : writeItems items = items.map write := by
  induction items with
  | nil => rfl
  | cons j rest ih => rw [writeItems, ih, List.map_cons]

/-- The written form of a member. -/
def memberText (m : Option String × Json) : String := writtenText (m.1.getD "") ++ ":" ++ m.2.write

theorem writeMembers_eq (members : Members) : writeMembers members = members.map memberText := by
  induction members with
  | nil => rfl
  | cons m rest ih => rw [writeMembers, ih, List.map_cons, memberText]

theorem toList_write_list (j : Json) (items : List Json) :
    (write (.list (j :: items))).toList =
      '[' :: (j.write.toList ++ tailText ']' (items.map (·.write.toList))) := by
  rw [write, writeItems_eq, String.toList_append, String.toList_append, String.toList_intercalate,
    List.map_cons, List.map_cons, List.map_map, List.append_assoc]
  exact congrArg ('[' :: ·) (intercalate_append ']' _ _)

theorem toList_write_object (m : Option String × Json) (members : Members) :
    (write (.object (m :: members))).toList =
      '\x7b' :: ((memberText m).toList ++
        tailText '\x7d' (members.map (fun m => (memberText m).toList))) := by
  rw [write, writeMembers_eq, String.toList_append, String.toList_append,
    String.toList_intercalate, List.map_cons, List.map_cons, List.map_map, List.append_assoc]
  exact congrArg ('\x7b' :: ·) (intercalate_append '\x7d' _ _)

theorem ends_cons {c : Char} (mem : c = ',' ∨ c = ']' ∨ c = '\x7d') (rest : List Char) :
    Ends (c :: rest) := by
  intro d first
  obtain rfl := Option.some.inj first
  exact mem

/-- The items of a list are read one by one. -/
theorem items_written (j : Json) (rest : List Json) (reads : ∀ k ∈ j :: rest, Reads room k)
    (after : List Char)
    (enough : 2 * (j.write.toList ++ tailText ']' (rest.map (·.write.toList))).length ≤ fuel) :
    items (fuel + 1) room
        (j.write.toList ++ (tailText ']' (rest.map (·.write.toList)) ++ after)) =
      (j :: rest, some after) := by
  induction rest generalizing j fuel with
  | nil =>
    rw [List.map_nil, tailText, List.flatMap_nil, List.nil_append, List.length_append,
      List.length_singleton] at enough
    obtain ⟨fuel, rfl⟩ : ∃ f, fuel = f + 1 := ⟨fuel - 1, by omega⟩
    have read := reads j List.mem_cons_self fuel (']' :: after) (by omega)
      (ends_cons (by decide) after)
    rw [List.map_nil, tailText, List.flatMap_nil, List.nil_append, List.singleton_append, items,
      read]
    simp only [skipBlanks_cons (show ']' ∉ [' ', '\t', '\n', '\r'] by decide)]
  | cons k rest ih =>
    rw [List.map_cons, tailText_cons, List.length_append, List.length_cons] at enough
    obtain ⟨fuel, rfl⟩ : ∃ f, fuel = f + 1 := ⟨fuel - 1, by omega⟩
    have read := reads j List.mem_cons_self fuel
      (',' :: (k.write.toList ++ (tailText ']' (rest.map (·.write.toList)) ++ after))) (by omega)
      (ends_cons (by decide) _)
    have fits : 2 * (k.write.toList ++ tailText ']' (rest.map (·.write.toList))).length ≤ fuel := by
      omega
    have later := ih k (fun k mem => reads k (List.mem_cons_of_mem j mem)) fits
    rw [List.map_cons, tailText_cons, List.cons_append, List.append_assoc, items, read]
    simp only [skipBlanks_cons (show ',' ∉ [' ', '\t', '\n', '\r'] by decide), later]

theorem toList_memberText (key : String) (j : Json) :
    (memberText (some key, j)).toList =
      '"' :: (key.toList.flatMap (fun c => (escapedChar c).toList) ++
        '"' :: ':' :: j.write.toList) := by
  rw [memberText, String.toList_append, String.toList_append, Option.getD_some,
    toList_writtenText]
  simp

theorem members_last {key : String} {j : Json} {after : List Char}
    (read : value fuel room (j.write.toList ++ '\x7d' :: after) = (j, some ('\x7d' :: after))) :
    members (fuel + 1) room ((memberText (some key, j)).toList ++ '\x7d' :: after) =
      ([(some key, j)], some after) := by
  have text := string?_written key (':' :: (j.write.toList ++ '\x7d' :: after))
  rw [toList_memberText, List.cons_append, List.append_assoc, List.cons_append, List.cons_append,
    members, skipBlanks_cons (by decide)]
  simp only [text, skipBlanks_cons (show ':' ∉ [' ', '\t', '\n', '\r'] by decide), read,
    skipBlanks_cons (show '\x7d' ∉ [' ', '\t', '\n', '\r'] by decide)]

theorem members_next {key : String} {j : Json} {rest : List Char} {more : Reading Members}
    (read : value fuel room (j.write.toList ++ ',' :: rest) = (j, some (',' :: rest)))
    (later : members fuel room rest = more) :
    members (fuel + 1) room ((memberText (some key, j)).toList ++ ',' :: rest) =
      ((some key, j) :: more.1, more.2) := by
  have text := string?_written key (':' :: (j.write.toList ++ ',' :: rest))
  rw [toList_memberText, List.cons_append, List.append_assoc, List.cons_append, List.cons_append,
    members, skipBlanks_cons (by decide)]
  simp only [text, skipBlanks_cons (show ':' ∉ [' ', '\t', '\n', '\r'] by decide), read,
    skipBlanks_cons (show ',' ∉ [' ', '\t', '\n', '\r'] by decide), later]

/-- The members of an object are read one by one. -/
theorem members_written (key : String) (j : Json) (rest : Members)
    (keys : ∀ m ∈ rest, m.1.isSome) (reads : ∀ m ∈ (some key, j) :: rest, Reads room m.2)
    (after : List Char)
    (enough : 2 * ((memberText (some key, j)).toList ++
      tailText '\x7d' (rest.map fun m => (memberText m).toList)).length ≤ fuel) :
    members (fuel + 1) room
        ((memberText (some key, j)).toList ++
          (tailText '\x7d' (rest.map fun m => (memberText m).toList) ++ after)) =
      ((some key, j) :: rest, some after) := by
  have shorter (key : String) (j : Json) :
      j.write.toList.length ≤ (memberText (some key, j)).toList.length := by
    rw [toList_memberText]
    simp only [List.length_cons, List.length_append]
    omega
  induction rest generalizing key j fuel with
  | nil =>
    have bound := shorter key j
    have here : Reads room j := reads (some key, j) List.mem_cons_self
    rw [List.map_nil, tailText, List.flatMap_nil, List.nil_append, List.length_append,
      List.length_singleton] at enough
    -- the first member takes at least one character, so some fuel is left for it
    obtain ⟨fuel, rfl⟩ : ∃ f, fuel = f + 1 := ⟨fuel - 1, by omega⟩
    have read := here fuel ('\x7d' :: after) (by omega)
      (ends_cons (by decide) after)
    rw [List.map_nil, tailText, List.flatMap_nil, List.nil_append, List.singleton_append]
    exact members_last read
  | cons m rest ih =>
    obtain ⟨key', j'⟩ := m
    rw [List.forall_mem_cons] at keys
    obtain ⟨key', rfl⟩ := Option.isSome_iff_exists.1 keys.1
    have bound := shorter key j
    have here : Reads room j := reads (some key, j) List.mem_cons_self
    rw [List.map_cons, tailText_cons, List.length_append, List.length_cons] at enough
    obtain ⟨fuel, rfl⟩ : ∃ f, fuel = f + 1 := ⟨fuel - 1, by omega⟩
    have fits : 2 * ((memberText (some key', j')).toList ++
        tailText '\x7d' (rest.map fun m => (memberText m).toList)).length ≤ fuel := by
      omega
    have read := here fuel
      (',' :: ((memberText (some key', j')).toList ++
        (tailText '\x7d' (rest.map fun m => (memberText m).toList) ++ after))) (by omega)
      (ends_cons (by decide) _)
    have later := ih key' j' keys.2 (fun m mem => reads m (List.mem_cons_of_mem _ mem)) fits
    rw [List.map_cons, tailText_cons, List.cons_append, List.append_assoc]
    exact members_next read later

/-! ## Documents -/

theorem begins_write (writable : Writable room j) : Begins j.write.toList := by
  cases writable with
  | null => exact .cons (by decide) _
  | bool b => cases b <;> exact .cons (by decide) _
  | @int _ n small =>
    obtain ⟨c, tail, written, first⟩ := exists_toString_eq_cons n
    rw [write, written]
    refine .cons (fun mem => ?_) tail
    simp only [List.mem_cons, List.not_mem_nil, or_false] at mem
    rcases mem with rfl | rfl | rfl | rfl | rfl | rfl <;> exact absurd first (by decide)
  | text s =>
    rw [write, toList_writtenText]
    exact .cons (by decide) _
  | @list _ items _ =>
    cases items with
    | nil => exact .cons (by decide) _
    | cons j items =>
      rw [toList_write_list]
      exact .cons (by decide) _
  | @object _ members _ _ =>
    cases members with
    | nil => exact .cons (by decide) _
    | cons m members =>
      rw [toList_write_object]
      exact .cons (by decide) _

theorem reads_list (items : List Json) (writable : ∀ j ∈ items, Writable room j)
    (reads : ∀ j ∈ items, Reads room j) : Reads (room + 1) (.list items) := by
  intro fuel rest enough ends
  cases items with
  | nil => rfl
  | cons j items =>
    rw [toList_write_list, List.length_cons] at enough
    obtain ⟨fuel, rfl⟩ : ∃ f, fuel = f + 1 := ⟨fuel - 1, by omega⟩
    have fits :
        2 * (j.write.toList ++ tailText ']' (items.map (·.write.toList))).length ≤ fuel := by
      omega
    have begins := (begins_write (writable j List.mem_cons_self)).append
      (tailText ']' (items.map (·.write.toList)) ++ rest)
    rw [toList_write_list, List.cons_append, List.append_assoc, value_list begins,
      items_written j items reads rest fits]

theorem reads_object (members : Members) (keys : ∀ m ∈ members, m.1.isSome)
    (reads : ∀ m ∈ members, Reads room m.2) : Reads (room + 1) (.object members) := by
  intro fuel rest enough ends
  cases members with
  | nil => rfl
  | cons m members =>
    obtain ⟨key, j⟩ := m
    rw [List.forall_mem_cons] at keys
    obtain ⟨key, rfl⟩ := Option.isSome_iff_exists.1 keys.1
    rw [toList_write_object, List.length_cons] at enough
    obtain ⟨fuel, rfl⟩ : ∃ f, fuel = f + 1 := ⟨fuel - 1, by omega⟩
    have fits : 2 * ((memberText (some key, j)).toList ++
        tailText '\x7d' (members.map fun m => (memberText m).toList)).length ≤ fuel := by
      omega
    have begins : Begins ((memberText (some key, j)).toList ++
        (tailText '\x7d' (members.map fun m => (memberText m).toList) ++ rest)) := by
      rw [toList_memberText]
      exact .cons (by decide) _
    rw [toList_write_object, List.cons_append, List.append_assoc, value_object begins,
      members_written key j members keys.2 reads rest fits]

/-- **A writable part of a document is read back.** -/
theorem Writable.reads (writable : Writable room j) : Reads room j := by
  induction writable with
  | null => exact reads_null
  | bool b => exact reads_bool b
  | int small => exact reads_int small
  | text s => exact reads_text s
  | list writable ih => exact reads_list _ writable ih
  | object keys _ ih => exact reads_object _ keys ih

/-- **A writable document is read back.** -/
theorem Writable.read_write (writable : Writable nestingLimit j) : read j.write = ⟨j, true⟩ := by
  have whole := writable.reads (2 * j.write.toList.length + 1) [] (by omega) (by simp [Ends])
  rw [List.append_nil] at whole
  simp only [read, whole]
  rfl

end Labyrinth.Json
