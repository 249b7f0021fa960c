/-!
# Shuffling

A list is shuffled in place from the front: the element at each position changes places with one at
a position that is not later, chosen by random words.

**Words** (`Words`). Everything random here is drawn from an endless supply of 32-bit words, given
by position, so that one supply always leads to the same result. Two supplies are built in: a list
gone through again and again, and a generator that scrambles a counter.

**Choices** (`Chooser`). To save words, one word chooses for several positions at once: a number
below the product of the next few counts is drawn and taken apart digit by digit, the last digit
being what is left over.

Main statement: `perm_shuffle`, a shuffle only reorders, whatever the words are.
-/

namespace Labyrinth.Random

/-! ## Words -/

/-- An endless supply of 32-bit words: the word at each position. -/
abbrev Words := Nat → UInt32

namespace Words

/-- The words of a list that is not empty, from the first on and over again. -/
def cycle (first : UInt32) (rest : List UInt32) : Words := fun n =>
  (first :: rest).getD (n % (rest.length + 1)) first

/-- What the counter of `scrambled` grows by at each word. -/
def increment : UInt64 := 0x9E3779B97F4A7C15

/-- Spreads the bits of a counter over a whole word. -/
def scramble (counter : UInt64) : UInt64 :=
  let z := (counter ^^^ (counter >>> 30)) * 0xBF58476D1CE4E5B9
  let z := (z ^^^ (z >>> 27)) * 0x94D049BB133111EB
  z ^^^ (z >>> 31)

/-- The upper halves of scrambled counters that start from a seed. -/
def scrambled (seed : UInt64) : Words := fun n =>
  (scramble (seed + (UInt64.ofNat n + 1) * increment) >>> 32).toUInt32

end Words

/-! ## Choices -/

/-- The number of different words. -/
def wordCount : Nat := UInt32.size

/-- A number below `bound`, and the position of the next unused word. It is the upper half of a
word times the bound; when the lower half is so large that the bits beyond the word could carry
over, a second word decides whether they do. -/
def below (words : Words) (bound used : Nat) : Nat × Nat :=
  let product := (words used).toNat * bound
  let high := product / wordCount
  let low := product % wordCount
  if low > wordCount - bound then
    let more := (words (used + 1)).toNat * bound / wordCount
    (if low + more ≥ wordCount then high + 1 else high, used + 2)
  else (high, used + 1)

/-- Multiplies in further factors, counting up from `next`, as long as the product is a word. Each
factor at least doubles the product, so 32 of them are too many. -/
def extendProduct : Nat → Nat → Nat → Nat → Nat × Nat
  | 0, product, count, _ => (product, count)
  | fuel + 1, product, count, next =>
    if product * next < wordCount then extendProduct fuel (product * next) (count + 1) (next + 1)
    else (product, count)

/-- The product of as many numbers counting up from `n` as fit into a word, and how many they
are. -/
def chunkProduct (n : Nat) : Nat × Nat := extendProduct 32 n 1 (n + 1)

/-- The state of choosing positions. -/
structure Chooser where
  /-- How many positions have been chosen for. -/
  position : Nat
  /-- What is left of the number last drawn. -/
  chunk : Nat
  /-- For how many positions it still chooses. -/
  left : Nat
  /-- How many words have been used. -/
  used : Nat

namespace Chooser

/-- Before the first position, for which there is no choice and no word is needed. -/
def initial : Chooser := ⟨0, 0, 1, 0⟩

/-- Draws a number for the next few positions if the last one is used up. -/
def refill (words : Words) (c : Chooser) : Chooser :=
  if c.left = 0 then
    let (bound, count) := chunkProduct (c.position + 1)
    let (chunk, used) := below words bound c.used
    { c with chunk := chunk, left := count, used := used }
  else c

/-- Chooses for the next position a position that is not later. -/
def choose (words : Words) (c : Chooser) : Nat × Chooser :=
  let c := c.refill words
  let next := c.position + 1
  if c.left = 1 then (c.chunk, { c with position := next, left := 0 })
  else (c.chunk % next, ⟨next, c.chunk / next, c.left - 1, c.used⟩)

end Chooser

/-- One step of a shuffle: the element at a position changes places with a chosen one. -/
def shuffleStep {α : Type} (words : Words) (s : Array α × Chooser) (i : Nat) : Array α × Chooser :=
  let (j, c) := s.2.choose words
  (s.1.swapIfInBounds i j, c)

/-- The shuffled elements and the number of words used. -/
def shuffle {α : Type} (words : Words) (xs : List α) : List α × Nat :=
  let (shuffled, c) := (List.range xs.length).foldl (shuffleStep words) (xs.toArray, .initial)
  (shuffled.toList, c.used)

theorem perm_foldl_shuffleStep {α : Type} (words : Words) (is : List Nat)
    (s : Array α × Chooser) :
    (is.foldl (shuffleStep words) s).1.toList.Perm s.1.toList := by
  induction is generalizing s with
  | nil => exact .refl _
  | cons i is ih =>
    refine (ih _).trans ?_
    simp only [shuffleStep, Array.swapIfInBounds]
    split
    · split
      · exact (Array.swap_perm ..).toList
      · exact .refl _
    · exact .refl _

/-- A shuffle only reorders. -/
theorem perm_shuffle {α : Type} (words : Words) (xs : List α) :
    (shuffle words xs).1.Perm xs :=
  perm_foldl_shuffleStep words _ (xs.toArray, .initial)

end Labyrinth.Random
