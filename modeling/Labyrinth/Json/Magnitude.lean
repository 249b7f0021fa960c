import Labyrinth.Text

/-!
# Magnitudes

How large a written number may be. A number is held as a 64-bit significand and a power of ten. Its
value is the product of the two doubles nearest to them, rounded once more; a number is too large if
that product is beyond the largest double. Because three roundings go into it, the limit is not a
single number: of two spellings of one number near the limit, one may be too large and the other
not.

**Rounding** (`roundToDouble`). To 53 significant bits, a tie going to the even neighbour. Main
statements: `roundToDouble_near`, a number moves by half of its last kept bit at most, and
`roundToDouble_of_lt`, numbers of up to 53 bits stay as they are.
-/

namespace Labyrinth.Json

/-! ## Rounding to 53 bits -/

/-- A quotient rounded to the nearest whole number, a tie going to the even one. -/
def divideEven (n d : Nat) : Nat :=
  if d < 2 * (n % d) ∨ (d = 2 * (n % d) ∧ n / d % 2 = 1) then n / d + 1 else n / d

/-- The value of the last bit that is kept when a number is cut to 53 significant bits. -/
def lastKeptBit (n : Nat) : Nat := Nat.pow 2 (n.log2 + 1 - 53)

/-- The double nearest to a natural number, were the range of doubles not limited. -/
def roundToDouble (n : Nat) : Nat := divideEven n (lastKeptBit n) * lastKeptBit n

theorem lastKeptBit_pos (n : Nat) : 0 < lastKeptBit n := Nat.pow_pos (by decide)

theorem divideEven_near (n : Nat) {d : Nat} (pos : 0 < d) :
    2 * n ≤ 2 * (divideEven n d * d) + d ∧ 2 * (divideEven n d * d) ≤ 2 * n + d := by
  have parts : n / d * d + n % d = n := Nat.div_add_mod' n d
  have small : n % d < d := Nat.mod_lt n pos
  unfold divideEven
  split
  · next up => rw [Nat.add_mul, Nat.one_mul]; omega
  · next down => omega

/-- Rounding moves a number by half of its last kept bit at most. -/
theorem roundToDouble_near (n : Nat) :
    2 * n ≤ 2 * roundToDouble n + lastKeptBit n ∧
      2 * roundToDouble n ≤ 2 * n + lastKeptBit n :=
  divideEven_near n (lastKeptBit_pos n)

/-- Numbers of up to 53 bits stay as they are. -/
theorem roundToDouble_of_lt {n : Nat} (short : n < 0x20000000000000) : roundToDouble n = n := by
  have bits : n.log2 + 1 - 53 = 0 := by
    by_cases zero : n = 0
    · simp [zero]
    · have := (Nat.log2_lt zero (k := 53)).2 short
      omega
  have unit : lastKeptBit n = 1 := by rw [lastKeptBit, bits]
  have := roundToDouble_near n
  omega

/-- The first power of two beyond the doubles. -/
def doubleLimit : Nat := Nat.pow 2 1024

/-! ## Significand and exponent -/

/-- The significand is a 64-bit word. -/
def significandLimit : Nat := UInt64.size

/-- Appends digits to a significand until one does not fit, and tells how many digits are left. -/
def appendDigits (significand : Nat) : List Char → Nat × Nat
  | [] => (significand, 0)
  | c :: rest =>
    let longer := 10 * significand + (Text.digit? c).getD 0
    if longer < significandLimit then appendDigits longer rest else (significand, rest.length + 1)

/-- A number as it is held: a significand times a power of ten. -/
structure Magnitude where
  significand : Nat
  exponent : Int
  deriving DecidableEq, Repr

namespace Magnitude

/-- How a number is held, given the digits before and after its point and the exponent written.
Digits before the point that do not fit count as powers of ten, those after it are dropped. -/
def ofDigits (whole fraction : List Char) (exponent : Int) : Magnitude :=
  let (significand, dropped) := appendDigits 0 whole
  let (significand, ignored) := appendDigits significand fraction
  ⟨significand, exponent + dropped - (fraction.length - ignored : Nat)⟩

/-- No double is large enough for the number. -/
def isTooLarge (m : Magnitude) : Bool :=
  if m.significand = 0 ∨ m.exponent < 0 then false
  else if 308 < m.exponent then true
  else
    let scale := roundToDouble (Nat.pow 10 m.exponent.toNat)
    doubleLimit ≤ roundToDouble (roundToDouble m.significand * scale)

end Magnitude

end Labyrinth.Json
