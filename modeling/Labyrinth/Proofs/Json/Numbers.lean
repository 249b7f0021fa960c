import Labyrinth.Json.Numeral
import Labyrinth.Proofs.Text

/-!
# Written integers are read back

**Theorem (`number?_toString`).** An integer below the limit of the significand is read from its
decimal digits, wherever a comma, a closing bracket or the end of the text follows.

Its digits do not begin with a superfluous zero (`head_toDigits`), so that they are scanned as one
numeral (`scan?_digits`). They all fit into the significand (`appendDigits_toDigits`), and a number
of that size is far below the largest double, because rounding at most doubles it
(`roundToDouble_le`).
-/

namespace Labyrinth.Json

open Text

variable {n : Nat} {cs rest : List Char}

/-- What follows a value in a written document. -/
def Ends (rest : List Char) : Prop := ∀ c ∈ rest.head?, c = ',' ∨ c = ']' ∨ c = '\x7d'

/-! ## Rounding -/

theorem lastKeptBit_le (pos : n ≠ 0) : lastKeptBit n ≤ n :=
  calc lastKeptBit n ≤ 2 ^ n.log2 := Nat.pow_le_pow_right (by decide) (by omega)
    _ ≤ n := Nat.log2_self_le pos

/-- Rounding at most doubles a number. -/
theorem roundToDouble_le (n : Nat) : roundToDouble n ≤ 2 * n := by
  by_cases zero : n = 0
  · rw [roundToDouble_of_lt (by rw [zero]; decide)]
    omega
  · have near := (roundToDouble_near n).2
    have small := lastKeptBit_le zero
    omega

theorem isTooLarge_of_lt (small : n < significandLimit) :
    (Magnitude.mk n 0).isTooLarge = false := by
  have rounded : roundToDouble (roundToDouble n) < doubleLimit :=
    calc roundToDouble (roundToDouble n) ≤ 2 * roundToDouble n := roundToDouble_le _
      _ ≤ 2 * (2 * n) := Nat.mul_le_mul_left 2 (roundToDouble_le n)
      _ < 2 * (2 * significandLimit) := by omega
      _ ≤ doubleLimit := by decide +kernel
  have unit : roundToDouble (Nat.pow 10 (0 : Int).toNat) = 1 := by decide
  unfold Magnitude.isTooLarge
  split
  · rfl
  · rw [if_neg (show ¬ (308 : Int) < 0 by decide)]
    simp only [unit, Nat.mul_one]
    exact decide_eq_false (Nat.not_le_of_lt rounded)

/-! ## Digits -/

/-- Digits that denote a number which fits are all appended to the significand. -/
theorem appendDigits_of_lt (digits : ∀ c ∈ cs, c.isDigit)
    (small : Nat.ofDigitChars 10 cs n < significandLimit) :
    appendDigits n cs = (Nat.ofDigitChars 10 cs n, 0) := by
  induction cs generalizing n with
  | nil => rfl
  | cons c rest ih =>
    rw [List.forall_mem_cons] at digits
    rw [Nat.ofDigitChars_cons] at small
    have fits : 10 * n + (c.toNat - '0'.toNat) < significandLimit := by
      rw [Nat.ofDigitChars_eq_ofDigitChars_zero] at small
      have shift := Nat.le_mul_of_pos_left (10 * n + (c.toNat - '0'.toNat))
        (Nat.pow_pos (n := rest.length) (show 0 < 10 by decide))
      omega
    rw [appendDigits, digit?_of_isDigit digits.1, Option.getD_some]
    simp only [if_pos fits]
    rw [ih digits.2 small, Nat.ofDigitChars_cons]

theorem appendDigits_toDigits (small : n < significandLimit) :
    appendDigits 0 (Nat.toDigits 10 n) = (n, 0) := by
  have denoted : Nat.ofDigitChars 10 (Nat.toDigits 10 n) 0 = n := Nat.ofDigitChars_ten_toDigits
  rw [appendDigits_of_lt (fun c => isDigit_of_mem_toDigits) (by rwa [denoted]), denoted]

/-! ## Numerals -/

theorem Ends.digit?_eq_none (h : Ends rest) : ∀ c ∈ rest.head?, digit? c = none := by
  intro c mem
  rcases h c mem with rfl | rfl | rfl <;> rfl

theorem whole?_toDigits (n : Nat) (h : Ends rest) :
    Numeral.whole? (Nat.toDigits 10 n ++ rest) = some (Nat.toDigits 10 n, rest) := by
  rw [Numeral.whole?, spanDigits_append (fun c => isDigit_of_mem_toDigits) h.digit?_eq_none]
  by_cases zero : n = 0
  · rw [zero, Nat.toDigits_zero]
    simp
  · have head := head_toDigits zero
    cases digits : Nat.toDigits 10 n with
    | nil => exact absurd digits Nat.toDigits_ne_nil
    | cons c more =>
      rw [digits, List.head?_cons, ne_eq, Option.some_inj] at head
      simp [head]

theorem fraction?_of_ends (h : Ends rest) : Numeral.fraction? rest = some (none, rest) := by
  cases rest with
  | nil => rfl
  | cons c rest => rcases h c rfl with rfl | rfl | rfl <;> rfl

theorem exponent?_of_ends (h : Ends rest) : Numeral.exponent? rest = some (none, rest) := by
  cases rest with
  | nil => rfl
  | cons c rest => rcases h c rfl with rfl | rfl | rfl <;> rfl

theorem toJson_digits (small : n < significandLimit) {negative : Bool}
    (zero : negative = true → n ≠ 0) (literal : List Char) :
    Numeral.toJson ⟨negative, Nat.toDigits 10 n, none, none⟩ literal =
      .int (if negative then -n else n) := by
  have held : Magnitude.ofDigits (Nat.toDigits 10 n) [] 0 = ⟨n, 0⟩ := by
    rw [Magnitude.ofDigits, appendDigits_toDigits small]
    rfl
  rw [Numeral.toJson]
  simp only [natural?_toDigits, Option.getD_none, held, isTooLarge_of_lt small]
  simpa using zero

theorem scan?_digits (n : Nat) (h : Ends rest) :
    Numeral.scan? (Nat.toDigits 10 n ++ rest) =
      some (⟨false, Nat.toDigits 10 n, none, none⟩, rest) := by
  have whole := whole?_toDigits n h
  cases digits : Nat.toDigits 10 n with
  | nil => exact absurd digits Nat.toDigits_ne_nil
  | cons c more =>
    have digit : c.isDigit := isDigit_of_mem_toDigits (digits ▸ List.mem_cons_self)
    have unsigned : c ≠ '-' := by
      rintro rfl
      cases digit
    rw [digits, List.cons_append] at whole
    simp [Numeral.scan?, unsigned, whole, fraction?_of_ends h, exponent?_of_ends h]

theorem scan?_minus_digits (n : Nat) (h : Ends rest) :
    Numeral.scan? ('-' :: (Nat.toDigits 10 n ++ rest)) =
      some (⟨true, Nat.toDigits 10 n, none, none⟩, rest) := by
  simp only [Numeral.scan?, whole?_toDigits n h, fraction?_of_ends h, exponent?_of_ends h,
    Option.bind_eq_bind, Option.bind_some]
  rfl

/-- **A written integer is read back.** -/
theorem number?_toString {n : Int} (small : n.natAbs < significandLimit) (h : Ends rest) :
    number? ((toString n).toList ++ rest) = some (.int n, rest) := by
  cases n with
  | ofNat n =>
    have written : (toString (Int.ofNat n)).toList = Nat.toDigits 10 n := Nat.toList_repr
    have value (literal : List Char) :
        Numeral.toJson ⟨false, Nat.toDigits 10 n, none, none⟩ literal = .int (Int.ofNat n) :=
      toJson_digits small (by simp) literal
    rw [written, number?, scan?_digits n h, Option.map_some]
    simp only [value]
  | negSucc n =>
    have written : (toString (Int.negSucc n)).toList = '-' :: Nat.toDigits 10 (n + 1) := by
      show ("-" ++ (n + 1).repr).toList = _
      rw [String.toList_append, Nat.toList_repr]
      rfl
    have value (literal : List Char) :
        Numeral.toJson ⟨true, Nat.toDigits 10 (n + 1), none, none⟩ literal =
          .int (Int.negSucc n) :=
      toJson_digits small (by simp) literal
    rw [written, List.cons_append, number?, scan?_minus_digits (n + 1) h, Option.map_some]
    simp only [value]

end Labyrinth.Json
