import Labyrinth.Text
import Labyrinth.Wall.Basic

/-!
# Names of walls

A wall is written `wall-h-X-Y` or `wall-v-X-Y`. Reading is a little wider than writing: a
coordinate may carry one plus sign and leading zeros. It is also narrower: a minus sign reads as a
separator, so only walls with coordinates that are not negative have a readable name.

**Spellings** (`Wall.spelled`). The texts that name a wall, told without a reader: an opening word,
a letter for the orientation and two coordinates, with dashes between them. A coordinate may be
spelled in many ways, since a plus sign and zeros in front change nothing.
-/

namespace Labyrinth

/-- The letter of an orientation. -/
def Orientation.letter : Orientation → Char
  | .horizontal => 'h'
  | .vertical => 'v'

namespace Wall

/-- The written form of a wall. -/
def name (w : Wall) : String := s!"wall-{w.orientation.letter}-{w.x}-{w.y}"

/-! ## Reading -/

/-- The largest coordinate that a name can hold. -/
def maxCoordinate : Nat := 0x7fffffff

/-- A coordinate: at most one plus sign, then at least one digit, denoting at most
`maxCoordinate`. -/
def coordinate? (s : List Char) : Option Int :=
  let unsigned := match s with
    | '+' :: rest => rest
    | s => s
  (Text.natural? unsigned).bind fun n => if n ≤ maxCoordinate then some (n : Int) else none

/-- The part of a text before its first dash, and the part after it if there is a dash. -/
def cutAtDash : List Char → List Char × Option (List Char)
  | [] => ([], none)
  | c :: rest => if c = '-' then ([], some rest) else ((cutAtDash rest).map (c :: ·) id)

/-- The orientation that a letter names. -/
def orientation? : List Char → Option Orientation
  | ['h'] => some .horizontal
  | ['v'] => some .vertical
  | _ => none

/-- What follows the opening word of a name: an orientation and two coordinates, each part but the
last ended by a dash. -/
def ofParts? (s : List Char) : Option Wall := do
  let (letter, rest) := cutAtDash s
  let orientation ← orientation? letter
  let (column, rest) := cutAtDash (← rest)
  let x ← coordinate? column
  let y ← coordinate? (← rest)
  return ⟨orientation, x, y⟩

/-- The wall that a text names. -/
def ofName? (s : String) : Option Wall :=
  match s.toList with
  | 'w' :: 'a' :: 'l' :: 'l' :: '-' :: rest => ofParts? rest
  | _ => none

/-! ## Spellings -/

/-- A coordinate in writing: perhaps a plus sign, then digits of ASCII, at least one. -/
@[ext] structure Spelling where
  plus : Bool
  digits : List Char
  filled : digits ≠ []
  decimal : ∀ c ∈ digits, c.isDigit

namespace Spelling

/-- The characters of a coordinate in writing. -/
def chars (s : Spelling) : List Char := if s.plus then '+' :: s.digits else s.digits

/-- The number that a coordinate in writing denotes. -/
def value (s : Spelling) : Nat := Nat.ofDigitChars 10 s.digits 0

/-- The digits begin with a zero that could be left out. -/
def Padded (s : Spelling) : Prop := s.digits.head? = some '0' ∧ 1 < s.digits.length

instance (s : Spelling) : Decidable s.Padded := inferInstanceAs (Decidable (_ ∧ _))

end Spelling

/-- The text that names a wall by its orientation and two coordinates in writing. -/
def spelled (o : Orientation) (x y : Spelling) : String :=
  "wall-" ++ String.ofList (o.letter :: '-' :: (x.chars ++ '-' :: y.chars))

end Wall

end Labyrinth
