import Labyrinth.Maze.Basic
import Labyrinth.Proofs.Wall.Name
import Labyrinth.Wall.Name

/-!
# What is read as the name of a wall

**Theorem (`Wall.parse_accepts_spellings`).** The texts that are read as a wall are those that spell
one, with coordinates that fit into 31 bits, and any other text is quoted in the refusal. Of walls
with signed coordinates of 32 bits just those are read back from their names that have no negative
one. A text is the name of the wall that it is read as unless it has a plus sign or a superfluous
zero.

The reader goes through a text from its front, so each of its parts is inverted in turn: a number
(`natural?_eq_some_iff`), a coordinate (`coordinate?_eq_some_iff`), the part before a dash
(`cutAtDash_eq_some_iff`), and what follows the opening word (`ofParts?_eq_some_iff`). A name spells
its wall by the digits of the coordinates (`name_eq_spelled`), and a text is spelled in one way only
(`spelled_inj`). The minus sign of a negative coordinate is a dash more than a spelled text has
(`ofName?_name_of_neg`).
-/

namespace Labyrinth.Wall

open Text

variable {cs front rest : List Char} {text : String} {o : Orientation} {w : Wall} {x y : Spelling}

/-! ## Reading -/

theorem cutAtDash_eq_some_iff :
    cutAtDash cs = (front, some rest) ↔ '-' ∉ front ∧ cs = front ++ '-' :: rest := by
  constructor
  · intro cut
    induction cs generalizing front with
    | nil => cases cut
    | cons c cs ih =>
      rw [cutAtDash] at cut
      split at cut
      · next dash =>
        cases cut
        exact ⟨List.not_mem_nil, by rw [dash, List.nil_append]⟩
      · next other =>
        obtain ⟨before, later, eq⟩ : ∃ before later, cutAtDash cs = (before, later) := ⟨_, _, rfl⟩
        rw [eq] at cut
        obtain ⟨rfl, rfl⟩ := Prod.mk.inj cut
        obtain ⟨plain, rfl⟩ := ih eq
        exact ⟨List.not_mem_cons_of_ne_of_not_mem (Ne.symm other) plain, rfl⟩
  · rintro ⟨plain, rfl⟩
    exact cutAtDash_append plain rest

theorem orientation?_eq_some_iff : orientation? cs = some o ↔ cs = [o.letter] := by
  constructor
  · intro named
    unfold orientation? at named
    split at named
    · cases named
      rfl
    · cases named
      rfl
    · cases named
  · rintro rfl
    cases o <;> rfl

namespace Spelling

theorem not_mem_digits {s : Spelling} {c : Char} (other : c.isDigit = false) : c ∉ s.digits :=
  fun mem => Bool.false_ne_true (other.symm.trans (s.decimal c mem))

theorem mem_chars_of_not_isDigit {s : Spelling} {c : Char} (other : c.isDigit = false) :
    c ∈ s.chars ↔ s.plus = true ∧ c = '+' := by
  unfold chars
  split
  · next plus => simp [plus, not_mem_digits other]
  · next bare => simp [bare, not_mem_digits other]

theorem dash_notMem_chars (s : Spelling) : '-' ∉ s.chars := fun mem => by
  cases ((mem_chars_of_not_isDigit rfl).1 mem).2

theorem plus_mem_chars {s : Spelling} : '+' ∈ s.chars ↔ s.plus = true := by
  rw [mem_chars_of_not_isDigit rfl, and_iff_left rfl]

theorem eq_of_chars_eq {s t : Spelling} (same : s.chars = t.chars) : s = t := by
  have plus : s.plus = t.plus := by
    rw [Bool.eq_iff_iff, ← plus_mem_chars, ← plus_mem_chars, same]
  rw [chars, chars, plus] at same
  split at same
  · exact Spelling.ext plus (List.cons.inj same).2
  · exact Spelling.ext plus same

/-- The digits of a number, as they stand in a name. -/
def ofNat (n : Nat) : Spelling :=
  ⟨false, Nat.toDigits 10 n, Nat.toDigits_ne_nil, fun _ => isDigit_of_mem_toDigits⟩

theorem ofNat_value_eq_iff (s : Spelling) : ofNat s.value = s ↔ s.plus = false ∧ ¬ s.Padded := by
  have digits : Nat.toDigits 10 s.value = s.digits ↔ ¬ s.Padded :=
    toDigits_ofDigitChars_eq_iff s.filled s.decimal
  rw [← digits]
  constructor
  · intro same
    exact ⟨congrArg plus same.symm, congrArg Spelling.digits same⟩
  · rintro ⟨bare, same⟩
    exact Spelling.ext bare.symm same

end Spelling

/-- What is read as a coordinate is the value of a coordinate in writing that fits. -/
theorem coordinate?_eq_some_iff {z : Int} :
    coordinate? cs = some z ↔
      ∃ s : Spelling, s.value ≤ maxCoordinate ∧ cs = s.chars ∧ z = s.value := by
  have fitting {ds : List Char} : ((natural? ds).bind fun n =>
      if n ≤ maxCoordinate then some (n : Int) else none) = some z ↔
        ds ≠ [] ∧ (∀ c ∈ ds, c.isDigit) ∧ Nat.ofDigitChars 10 ds 0 ≤ maxCoordinate ∧
          z = Nat.ofDigitChars 10 ds 0 := by
    simp only [Option.bind_eq_some_iff, natural?_eq_some_iff]
    constructor
    · rintro ⟨n, ⟨filled, decimal, rfl⟩, fits⟩
      split at fits
      · next small => exact ⟨filled, decimal, small, (Option.some.inj fits).symm⟩
      · cases fits
    · rintro ⟨filled, decimal, small, rfl⟩
      exact ⟨_, ⟨filled, decimal, rfl⟩, if_pos small⟩
  unfold coordinate?
  split
  · next ds =>
    rw [fitting]
    constructor
    · rintro ⟨filled, decimal, small, rfl⟩
      exact ⟨⟨true, ds, filled, decimal⟩, small, rfl, rfl⟩
    · rintro ⟨⟨plus, digits, filled, decimal⟩, small, same, rfl⟩
      cases plus with
      | true =>
        obtain rfl : ds = digits := (List.cons.inj same).2
        exact ⟨filled, decimal, small, rfl⟩
      | false =>
        -- a plus sign is no digit
        obtain rfl : '+' :: ds = digits := same
        cases decimal '+' List.mem_cons_self
  · next bare =>
    rw [fitting]
    constructor
    · rintro ⟨filled, decimal, small, rfl⟩
      exact ⟨⟨false, cs, filled, decimal⟩, small, rfl, rfl⟩
    · rintro ⟨⟨plus, digits, filled, decimal⟩, small, same, rfl⟩
      cases plus with
      | true => exact absurd same (bare digits)
      | false =>
        obtain rfl : cs = digits := same
        exact ⟨filled, decimal, small, rfl⟩

theorem ofParts?_eq_some_iff :
    ofParts? cs = some w ↔ ∃ x y : Spelling, x.value ≤ maxCoordinate ∧ y.value ≤ maxCoordinate ∧
      cs = w.orientation.letter :: '-' :: (x.chars ++ '-' :: y.chars) ∧
        w.x = x.value ∧ w.y = y.value := by
  constructor
  · intro read
    simp only [ofParts?, Option.bind_eq_bind, Option.bind_eq_some_iff] at read
    obtain ⟨o, named, behind, dash, column, left, later, dash', row, top, made⟩ := read
    have cut : cutAtDash cs = ((cutAtDash cs).1, some behind) := Prod.ext rfl dash
    have cut' : cutAtDash behind = ((cutAtDash behind).1, some later) := Prod.ext rfl dash'
    obtain ⟨-, whole⟩ := cutAtDash_eq_some_iff.1 cut
    obtain ⟨-, split⟩ := cutAtDash_eq_some_iff.1 cut'
    obtain ⟨x, x_fits, x_chars, rfl⟩ := coordinate?_eq_some_iff.1 left
    obtain ⟨y, y_fits, y_chars, rfl⟩ := coordinate?_eq_some_iff.1 top
    obtain rfl := Option.some.inj made
    refine ⟨x, y, x_fits, y_fits, ?_, rfl, rfl⟩
    rw [whole, orientation?_eq_some_iff.1 named, split, x_chars, y_chars, List.singleton_append]
  · rintro ⟨x, y, x_fits, y_fits, rfl, column, row⟩
    have letter : '-' ∉ [w.orientation.letter] := by cases w.orientation <;> decide
    have cut : cutAtDash (w.orientation.letter :: '-' :: (x.chars ++ '-' :: y.chars)) = _ :=
      cutAtDash_append letter (x.chars ++ '-' :: y.chars)
    have cut' := cutAtDash_append x.dash_notMem_chars y.chars
    have named : orientation? [w.orientation.letter] = some w.orientation :=
      orientation?_eq_some_iff.2 rfl
    have left := coordinate?_eq_some_iff.2 ⟨x, x_fits, rfl, rfl⟩
    have top := coordinate?_eq_some_iff.2 ⟨y, y_fits, rfl, rfl⟩
    simp only [ofParts?, cut, cut', named, left, top, Option.bind_eq_bind, Option.bind_some]
    rw [← column, ← row]
    rfl

/-! ## Texts -/

theorem toList_spelled (o : Orientation) (x y : Spelling) :
    (spelled o x y).toList =
      'w' :: 'a' :: 'l' :: 'l' :: '-' :: o.letter :: '-' :: (x.chars ++ '-' :: y.chars) := by
  simp only [spelled, String.toList_append, String.toList_ofList]
  rfl

/-- **The texts that name a wall are those that spell it.** -/
theorem ofName?_eq_some_iff :
    ofName? text = some w ↔ ∃ x y : Spelling, x.value ≤ maxCoordinate ∧ y.value ≤ maxCoordinate ∧
      text = spelled w.orientation x y ∧ w.x = x.value ∧ w.y = y.value := by
  constructor
  · intro read
    unfold ofName? at read
    split at read
    · next rest opening =>
      obtain ⟨x, y, x_fits, y_fits, rfl, column, row⟩ := ofParts?_eq_some_iff.1 read
      refine ⟨x, y, x_fits, y_fits, String.toList_inj.1 ?_, column, row⟩
      rw [opening, toList_spelled]
    · cases read
  · rintro ⟨x, y, x_fits, y_fits, rfl, column, row⟩
    rw [ofName?, toList_spelled]
    exact ofParts?_eq_some_iff.2 ⟨x, y, x_fits, y_fits, rfl, column, row⟩

theorem parse_eq_ok_iff : parse text = .ok w ↔ ofName? text = some w := by
  unfold parse
  cases ofName? text with
  | none => simp
  | some v => simp

theorem parse_of_eq_none (unread : ofName? text = none) :
    parse text = .error (.malformedWallName text) := by
  rw [parse, unread]

/-- A text is spelled in one way only. -/
theorem spelled_inj {x' y' : Spelling} : spelled o x y = spelled o x' y' ↔ x = x' ∧ y = y' := by
  constructor
  · intro same
    have chars := congrArg String.toList same
    simp only [toList_spelled, List.cons.injEq, true_and] at chars
    have cut := congrArg cutAtDash chars
    rw [cutAtDash_append x.dash_notMem_chars, cutAtDash_append x'.dash_notMem_chars] at cut
    obtain ⟨column, row⟩ := Prod.mk.inj cut
    exact ⟨Spelling.eq_of_chars_eq column, Spelling.eq_of_chars_eq (Option.some.inj row)⟩
  · rintro ⟨rfl, rfl⟩
    rfl

theorem plus_mem_spelled : '+' ∈ (spelled o x y).toList ↔ x.plus = true ∨ y.plus = true := by
  have letter : '+' ≠ o.letter := by cases o <;> decide
  rw [toList_spelled]
  simp [letter, Spelling.plus_mem_chars]

/-! ## Names -/

theorem name_eq_spelled (o : Orientation) (x y : Nat) :
    name ⟨o, x, y⟩ = spelled o (.ofNat x) (.ofNat y) := by
  rw [← String.toList_inj, toList_name, toList_spelled]
  rfl

/-- A text is the name of the wall that it spells unless it has a plus sign or a superfluous
zero. -/
theorem name_eq_spelled_iff :
    name ⟨o, x.value, y.value⟩ = spelled o x y ↔
      '+' ∉ (spelled o x y).toList ∧ ¬ x.Padded ∧ ¬ y.Padded := by
  rw [name_eq_spelled, spelled_inj, Spelling.ofNat_value_eq_iff, Spelling.ofNat_value_eq_iff,
    plus_mem_spelled]
  simp only [not_or, Bool.not_eq_true]
  tauto

theorem count_dash_spelled (o : Orientation) (x y : Spelling) :
    (spelled o x y).toList.count '-' = 3 := by
  have letter : o.letter ≠ '-' := by cases o <;> decide
  have column := List.count_eq_zero_of_not_mem x.dash_notMem_chars
  have row := List.count_eq_zero_of_not_mem y.dash_notMem_chars
  simp [toList_spelled, letter, column, row]

theorem count_dash_name (w : Wall) :
    w.name.toList.count '-' =
      3 + (toString w.x).toList.count '-' + (toString w.y).toList.count '-' := by
  have letter : w.orientation.letter ≠ '-' := by cases w.orientation <;> decide
  have written : w.name =
      "wall-" ++ w.orientation.letter.toString ++ "-" ++ toString w.x ++ "-" ++ toString w.y := rfl
  rw [written]
  simp [letter]
  omega

theorem dash_mem_toString {n : Int} (neg : n < 0) : '-' ∈ (toString n).toList := by
  obtain ⟨n, rfl⟩ := Int.eq_negSucc_of_lt_zero neg
  have written : toString (Int.negSucc n) = "-" ++ (n + 1).repr := rfl
  rw [written, String.toList_append]
  exact List.mem_append_left _ List.mem_cons_self

/-- A minus sign is a dash too many. -/
theorem ofName?_name_of_neg (neg : w.x < 0 ∨ w.y < 0) : ofName? w.name = none := by
  rw [Option.eq_none_iff_forall_ne_some]
  intro v read
  obtain ⟨x, y, -, -, same, -⟩ := ofName?_eq_some_iff.1 read
  have dashes := count_dash_name w
  rw [same, count_dash_spelled] at dashes
  rcases neg with neg | neg
  · have sign := List.count_pos_iff.2 (dash_mem_toString neg)
    omega
  · have sign := List.count_pos_iff.2 (dash_mem_toString neg)
    omega

/-- A wall is read back from its name exactly if it has no negative coordinate. -/
theorem ofName?_name_eq_some_iff (column : w.x ≤ maxCoordinate) (row : w.y ≤ maxCoordinate) :
    ofName? w.name = some w ↔ 0 ≤ w.x ∧ 0 ≤ w.y := by
  constructor
  · intro read
    by_contra neg
    rw [ofName?_name_of_neg (by omega)] at read
    cases read
  · rintro ⟨left, top⟩
    obtain ⟨o, x, y⟩ := w
    obtain ⟨x, rfl⟩ := Int.eq_ofNat_of_zero_le left
    obtain ⟨y, rfl⟩ := Int.eq_ofNat_of_zero_le top
    exact ofName?_name o (Int.ofNat_le.1 column) (Int.ofNat_le.1 row)

/-- **What is read as a wall is what spells one.** -/
theorem parse_accepts_spellings :
    (∀ text w, parse text = .ok w ↔
      ∃ x y : Spelling, x.value ≤ 2147483647 ∧ y.value ≤ 2147483647 ∧
        text = spelled w.orientation x y ∧ w.x = x.value ∧ w.y = y.value) ∧
    (∀ text, (∃ w, parse text = .ok w) ∨ parse text = .error (.malformedWallName text)) ∧
    (∀ w : Wall, w.x ≤ 2147483647 → w.y ≤ 2147483647 →
      (parse w.name = .ok w ↔ 0 ≤ w.x ∧ 0 ≤ w.y) ∧
        (¬ (0 ≤ w.x ∧ 0 ≤ w.y) → parse w.name = .error (.malformedWallName w.name))) ∧
    ∀ text w x y, parse text = .ok w → text = spelled w.orientation x y →
      (w.name = text ↔ '+' ∉ text.toList ∧ ¬ x.Padded ∧ ¬ y.Padded) := by
  refine ⟨fun text w => ?_, fun text => ?_, fun w column row => ⟨?_, fun neg => ?_⟩, ?_⟩
  · rw [parse_eq_ok_iff]
    exact ofName?_eq_some_iff
  · cases read : ofName? text with
    | none => exact .inr (parse_of_eq_none read)
    | some w => exact .inl ⟨w, parse_eq_ok_iff.2 read⟩
  · rw [parse_eq_ok_iff]
    exact ofName?_name_eq_some_iff column row
  · exact parse_of_eq_none (ofName?_name_of_neg (by omega))
  · rintro text w x y read rfl
    obtain ⟨x', y', -, -, same, column, row⟩ := ofName?_eq_some_iff.1 (parse_eq_ok_iff.1 read)
    obtain ⟨rfl, rfl⟩ := spelled_inj.1 same
    obtain ⟨o, column', row'⟩ := w
    obtain rfl : column' = x.value := column
    obtain rfl : row' = y.value := row
    exact name_eq_spelled_iff

end Labyrinth.Wall
