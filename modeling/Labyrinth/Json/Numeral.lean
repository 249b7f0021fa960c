import Labyrinth.Json.Basic
import Labyrinth.Json.Magnitude

/-!
# Numerals

The written numbers of a document: an integer part without superfluous zeros, then perhaps a
fraction and an exponent. Those with neither are integers. A number that is too large for a double
is unreadable.
-/

namespace Labyrinth.Json

/-- The parts of a numeral. -/
structure Numeral where
  negative : Bool
  whole : List Char
  fraction : Option (List Char)
  exponent : Option Int

namespace Numeral

/-- The digits after a mark, of which there must be at least one. -/
def digits? (cs : List Char) : Option (List Char × List Char) :=
  match Text.spanDigits cs with
  | ([], _) => none
  | result => some result

/-- The integer part at the front: one zero, or digits that do not begin with one. -/
def whole? (cs : List Char) : Option (List Char × List Char) :=
  match Text.spanDigits cs with
  | ([], _) => none
  | ('0' :: _ :: _, _) => none
  | result => some result

/-- The fraction at the front, if a point announces one. -/
def fraction? : List Char → Option (Option (List Char) × List Char)
  | '.' :: rest => (digits? rest).map fun (digits, rest) => (some digits, rest)
  | cs => some (none, cs)

/-- The sign at the front, which may be left out. -/
def sign : List Char → Bool × List Char
  | '-' :: rest => (true, rest)
  | '+' :: rest => (false, rest)
  | cs => (false, cs)

/-- The exponent at the front, if a letter announces one. -/
def exponent? : List Char → Option (Option Int × List Char)
  | c :: rest =>
    if c = 'e' ∨ c = 'E' then
      let (negative, rest) := sign rest
      (digits? rest).map fun (digits, rest) =>
        let n : Int := (Text.natural? digits).getD 0
        (some (if negative then -n else n), rest)
    else some (none, c :: rest)
  | [] => some (none, [])

/-- The numeral at the front, and what follows it. -/
def scan? (cs : List Char) : Option (Numeral × List Char) := do
  let (negative, rest) := match cs with
    | '-' :: rest => (true, rest)
    | _ => (false, cs)
  let (whole, rest) ← whole? rest
  let (fraction, rest) ← fraction? rest
  let (exponent, rest) ← exponent? rest
  return (⟨negative, whole, fraction, exponent⟩, rest)

/-- The value that a numeral stands for, given how it is written. -/
def toJson (n : Numeral) (literal : List Char) : Json :=
  let m := (Text.natural? n.whole).getD 0
  if (Magnitude.ofDigits n.whole (n.fraction.getD []) (n.exponent.getD 0)).isTooLarge then
    .unreadable
  else if n.fraction.isSome ∨ n.exponent.isSome ∨ (n.negative ∧ m = 0) then
    .real (String.ofList literal)
  else .int (if n.negative then -m else m)

end Numeral

/-- The number at the front, and what follows it. -/
def number? (cs : List Char) : Option (Json × List Char) :=
  (Numeral.scan? cs).map fun (n, rest) =>
    (n.toJson (cs.take (cs.length - rest.length)), rest)

end Labyrinth.Json
