import Labyrinth.Text
import Mathlib.Data.List.TakeDrop
import Mathlib.Data.List.Nodup

/-!
# Numbers in digits and texts in lines

A natural number is read back from its decimal digits (`natural?_toDigits`), and the digits are told
from what follows them if that begins with something else (`spanDigits_append`).

What is read as a number are the lists of digits that are not empty (`natural?_eq_some_iff`). The
number has just these digits unless they begin with a zero that could be left out
(`toDigits_ofDigitChars_eq_iff`).

A text whose lines are each ended, split where lines end: its lines come back, as long as none of
them holds the end of a line (`splitOn_ended_append`).
-/

namespace Labyrinth.Text

/-! ## Digits -/

variable {n : Nat} {c : Char} {cs rest : List Char}

theorem digit?_of_isDigit (h : c.isDigit) : digit? c = some (c.toNat - '0'.toNat) := by
  rw [Char.isDigit, Bool.and_eq_true, decide_eq_true_eq, decide_eq_true_eq] at h
  exact if_pos h

theorem isDigit_of_mem_toDigits (h : c ∈ Nat.toDigits 10 n) : c.isDigit :=
  Nat.isDigit_of_mem_toDigits (by decide) (by decide) h

theorem digitsAfter?_of_isDigit (h : ∀ c ∈ cs, c.isDigit) (n : Nat) :
    digitsAfter? n cs = some (Nat.ofDigitChars 10 cs n) := by
  induction cs generalizing n with
  | nil => rfl
  | cons c rest ih =>
    rw [List.forall_mem_cons] at h
    rw [digitsAfter?, digit?_of_isDigit h.1, Option.bind_some, ih h.2]
    rfl

theorem natural?_eq_digitsAfter? (h : cs ≠ []) : natural? cs = digitsAfter? 0 cs := by
  cases cs with
  | nil => exact absurd rfl h
  | cons c rest => rfl

/-- **A number is read back from its digits.** -/
theorem natural?_toDigits (n : Nat) : natural? (Nat.toDigits 10 n) = some n := by
  rw [natural?_eq_digitsAfter? Nat.toDigits_ne_nil,
    digitsAfter?_of_isDigit fun c => isDigit_of_mem_toDigits, Nat.ofDigitChars_ten_toDigits]

theorem toDigits_inj {n m : Nat} (same : Nat.toDigits 10 n = Nat.toDigits 10 m) : n = m := by
  have read := congrArg natural? same
  rwa [natural?_toDigits, natural?_toDigits, Option.some_inj] at read

/-- Digits end where something else begins. -/
theorem spanDigits_append (digits : ∀ c ∈ cs, c.isDigit)
    (ends : ∀ c ∈ rest.head?, digit? c = none) : spanDigits (cs ++ rest) = (cs, rest) := by
  have isSome : ∀ c ∈ cs, (digit? c).isSome = true := fun c h => by
    rw [digit?_of_isDigit (digits c h), Option.isSome_some]
  rw [spanDigits, List.span_eq_takeWhile_dropWhile, List.takeWhile_append_of_pos isSome,
    List.dropWhile_append_of_pos isSome]
  cases rest with
  | nil => simp
  | cons c rest =>
    have none : digit? c = none := ends c rfl
    simp [none]

theorem head_toDigits (pos : n ≠ 0) : (Nat.toDigits 10 n).head? ≠ some '0' := by
  induction n using Nat.strongRecOn with
  | ind n ih =>
    by_cases small : n < 10
    · rw [Nat.toDigits_of_lt_base small]
      have digit : ∀ d < 10, d ≠ 0 → [d.digitChar].head? ≠ some '0' := by decide
      exact digit n small pos
    · rw [Nat.toDigits_of_base_le (by decide) (Nat.le_of_not_lt small), List.head?_append]
      have shorter := ih (n / 10) (by omega) (by omega)
      cases head : (Nat.toDigits 10 (n / 10)).head? with
      | none => exact absurd (List.head?_eq_none_iff.1 head) Nat.toDigits_ne_nil
      | some c =>
        rw [head] at shorter
        exact shorter

/-! ## The digits of what digits denote -/

theorem exists_eq_digitChar (digit : c.isDigit) : ∃ d < 10, c = Nat.digitChar d := by
  rw [Char.isDigit_iff_toNat] at digit
  obtain ⟨low, high⟩ := digit
  change 48 ≤ c.toNat at low
  change c.toNat ≤ 57 at high
  refine ⟨c.toNat - 48, by omega, Char.toNat_inj.1 ?_⟩
  rw [Nat.toNat_digitChar_of_lt_ten (by omega)]
  omega

theorem isDigit_of_digit? {d : Nat} (h : digit? c = some d) : c.isDigit := by
  unfold digit? at h
  split at h
  · next within =>
    rw [Char.isDigit, Bool.and_eq_true, decide_eq_true_eq, decide_eq_true_eq]
    exact within
  · cases h

theorem isDigit_of_digitsAfter? {k : Nat} (h : digitsAfter? n cs = some k) :
    ∀ c ∈ cs, c.isDigit := by
  induction cs generalizing n with
  | nil => exact List.forall_mem_nil _
  | cons c rest ih =>
    rw [digitsAfter?, Option.bind_eq_some_iff] at h
    obtain ⟨d, digit, later⟩ := h
    exact List.forall_mem_cons.2 ⟨isDigit_of_digit? digit, ih later⟩

/-- **A list of characters denotes a number** exactly if it consists of digits, at least one. -/
theorem natural?_eq_some_iff :
    natural? cs = some n ↔ cs ≠ [] ∧ (∀ c ∈ cs, c.isDigit) ∧ n = Nat.ofDigitChars 10 cs 0 := by
  constructor
  · intro h
    have filled : cs ≠ [] := by
      rintro rfl
      cases h
    rw [natural?_eq_digitsAfter? filled] at h
    have digits := isDigit_of_digitsAfter? h
    rw [digitsAfter?_of_isDigit digits, Option.some_inj] at h
    exact ⟨filled, digits, h.symm⟩
  · rintro ⟨filled, digits, rfl⟩
    rw [natural?_eq_digitsAfter? filled, digitsAfter?_of_isDigit digits]

/-- Behind a number that is not zero, digits are the last digits of what they make of it. -/
theorem toDigits_ofDigitChars_of_pos (pos : 0 < n) (digits : ∀ c ∈ cs, c.isDigit) :
    Nat.toDigits 10 (Nat.ofDigitChars 10 cs n) = Nat.toDigits 10 n ++ cs := by
  induction cs generalizing n with
  | nil => rw [Nat.ofDigitChars_nil, List.append_nil]
  | cons c rest ih =>
    rw [List.forall_mem_cons] at digits
    obtain ⟨d, small, rfl⟩ := exists_eq_digitChar digits.1
    rw [Nat.ofDigitChars_cons_digitChar_of_lt_ten small, ih (by omega) digits.2,
      ← Nat.toDigits_append_toDigits (by decide) pos small, Nat.toDigits_of_lt_base small,
      List.append_assoc, List.singleton_append]

/-- **Digits are those of the number that they denote** unless they begin with a zero that could be
left out. -/
theorem toDigits_ofDigitChars_eq_iff (filled : cs ≠ []) (digits : ∀ c ∈ cs, c.isDigit) :
    Nat.toDigits 10 (Nat.ofDigitChars 10 cs 0) = cs ↔ ¬ (cs.head? = some '0' ∧ 1 < cs.length) := by
  constructor
  · rintro same ⟨zero, long⟩
    by_cases nothing : Nat.ofDigitChars 10 cs 0 = 0
    · rw [nothing, Nat.toDigits_zero] at same
      rw [← same] at long
      exact Nat.lt_irrefl 1 long
    · rw [← same] at zero
      exact head_toDigits nothing zero
  · intro plain
    obtain ⟨c, rest, rfl⟩ := List.exists_cons_of_ne_nil filled
    rw [List.forall_mem_cons] at digits
    obtain ⟨d, small, rfl⟩ := exists_eq_digitChar digits.1
    rw [Nat.ofDigitChars_cons_digitChar_of_lt_ten small, Nat.mul_zero, Nat.zero_add]
    by_cases zero : d = 0
    · subst zero
      have alone : rest = [] := by
        refine List.eq_nil_of_length_eq_zero ?_
        rw [List.head?_cons, List.length_cons] at plain
        have := not_and.1 plain rfl
        omega
      rw [alone, Nat.ofDigitChars_nil, Nat.toDigits_zero]
      rfl
    · rw [toDigits_ofDigitChars_of_pos (Nat.pos_of_ne_zero zero) digits.2,
        Nat.toDigits_of_lt_base small, List.singleton_append]

/-! ## Lines -/

/-- Split where lines end, a text is its lines and what stands behind the last. -/
theorem splitOn_ended_append {ls : List (List Char)} (inside : ∀ l ∈ ls, '\n' ∉ l)
    (rest : List Char) :
    (ls.flatMap (· ++ ['\n']) ++ rest).splitOn '\n' = ls ++ rest.splitOn '\n' := by
  induction ls with
  | nil => rfl
  | cons l later ih =>
    rw [List.forall_mem_cons] at inside
    rw [List.flatMap_cons, List.append_assoc, List.append_assoc, List.singleton_append,
      List.splitOn_append_cons_self_of_not_mem inside.1, ih inside.2, List.cons_append]

theorem splitOn_ended {ls : List String} (inside : ∀ l ∈ ls, '\n' ∉ l.toList) :
    (String.join (ls.map (· ++ "\n"))).toList.splitOn '\n' = ls.map String.toList ++ [[]] := by
  have ended : (fun l : String => (l ++ "\n").toList) = fun l => l.toList ++ ['\n'] := by
    funext l
    exact String.toList_append
  have plain : ∀ l ∈ ls.map String.toList, '\n' ∉ l := by simpa using inside
  have split := splitOn_ended_append plain []
  rw [List.append_nil, List.flatMap_map] at split
  rw [String.toList_join, List.flatMap_map, ended]
  exact split

end Labyrinth.Text
