import Labyrinth.Json.Numeral

/-!
# Reading documents

The reader turns any text into a document, broken where the text is no JSON. It is strict: no
superfluous commas, no raw control characters inside strings. Lists and objects may be nested 127
deep.

Each reader gives what it has read and the rest of the text, or no rest if the text broke.
-/

namespace Labyrinth.Json

/-- What follows the blanks at the front. -/
def skipBlanks (cs : List Char) : List Char :=
  cs.dropWhile fun c => c = ' ' || c = '\t' || c = '\n' || c = '\r'

/-! ## Strings -/

/-- The value of a hexadecimal digit, in either case. -/
def hexDigit? (c : Char) : Option Nat :=
  if 'a' ≤ c ∧ c ≤ 'f' then some (c.toNat - 'a'.toNat + 10)
  else if 'A' ≤ c ∧ c ≤ 'F' then some (c.toNat - 'A'.toNat + 10)
  else Text.digit? c

/-- The number that four hexadecimal digits denote. -/
def hex4? (a b c d : Char) : Option Nat := do
  return (((← hexDigit? a) * 16 + (← hexDigit? b)) * 16 + (← hexDigit? c)) * 16 + (← hexDigit? d)

/-- The code point that a letter after a backslash stands for. -/
def shortEscape? : Char → Option Nat
  | '"' => some 0x22
  | '\\' => some 0x5c
  | '/' => some 0x2f
  | 'b' => some 0x08
  | 'f' => some 0x0c
  | 'n' => some 0x0a
  | 'r' => some 0x0d
  | 't' => some 0x09
  | _ => none

/-- The code points up to the closing quote, surrogates from escapes among them, and what follows
the quote; `none` if the string breaks. -/
def codePoints? : List Char → Option (List Nat × List Char)
  | [] => none
  | '"' :: rest => some ([], rest)
  | '\\' :: 'u' :: a :: b :: c :: d :: rest => do
    let n ← hex4? a b c d
    let (more, rest) ← codePoints? rest
    return (n :: more, rest)
  | '\\' :: c :: rest => do
    let n ← shortEscape? c
    let (more, rest) ← codePoints? rest
    return (n :: more, rest)
  | c :: rest => do
    if c.toNat < 0x20 then none
    let (more, rest) ← codePoints? rest
    return (c.toNat :: more, rest)

/-- The first half of a surrogate pair. -/
def isHighHalf (n : Nat) : Bool := 0xd800 ≤ n && n < 0xdc00

/-- The second half of a surrogate pair. -/
def isLowHalf (n : Nat) : Bool := 0xdc00 ≤ n && n < 0xe000

/-- The characters that code points stand for; `none` if half of a surrogate pair stands alone. -/
def joinHalves? : List Nat → Option (List Char)
  | [] => some []
  | high :: low :: rest =>
    if isHighHalf high && isLowHalf low then
      (joinHalves? rest).map (Char.ofNat (0x10000 + (high - 0xd800) * 0x400 + (low - 0xdc00)) :: ·)
    else if isHighHalf high || isLowHalf high then none
    else (joinHalves? (low :: rest)).map (Char.ofNat high :: ·)
  | [n] => if isHighHalf n || isLowHalf n then none else some [Char.ofNat n]

/-- The text up to the closing quote, and what follows the quote. The outer option is `none` if the
string breaks, the inner one if it is unreadable. -/
def string? (cs : List Char) : Option (Option String × List Char) :=
  (codePoints? cs).map fun (points, rest) => ((joinHalves? points).map String.ofList, rest)

/-! ## Values -/

/-- How deep lists and objects may be nested. -/
def nestingLimit : Nat := 127

/-- What has been read, and the rest of the text unless it broke. -/
abbrev Reading (α : Type) := α × Option (List Char)

/-- A list or an object for which there was no room left is unreadable, unless it is broken. -/
def fitInto (room : Nat) (r : Reading Json) : Reading Json :=
  if room = 0 ∧ r.2.isSome then (.unreadable, r.2) else r

/-- A string at the front, after its opening quote. -/
def textValue (cs : List Char) : Reading Json :=
  match string? cs with
  | none => (.broken, none)
  | some (none, rest) => (.unreadable, some rest)
  | some (some s, rest) => (.text s, some rest)

/-- A number or a constant at the front. -/
def plainValue (cs : List Char) : Reading Json :=
  match cs with
  | 'n' :: 'u' :: 'l' :: 'l' :: rest => (.null, some rest)
  | 't' :: 'r' :: 'u' :: 'e' :: rest => (.bool true, some rest)
  | 'f' :: 'a' :: 'l' :: 's' :: 'e' :: rest => (.bool false, some rest)
  | cs =>
    match number? cs with
    | none => (.broken, none)
    | some (j, rest) => (j, some rest)

mutual

/-- The value at the front, with room for a number of nested lists and objects. -/
def value : Nat → Nat → List Char → Reading Json
  | 0, _, _ => (.broken, none)
  | fuel + 1, room, cs =>
    match skipBlanks cs with
    | '[' :: rest =>
      fitInto room <|
        match skipBlanks rest with
        | ']' :: rest => (.list [], some rest)
        | rest => let (items, rest) := items fuel (room - 1) rest; (.list items, rest)
    | '\x7b' :: rest =>
      fitInto room <|
        match skipBlanks rest with
        | '\x7d' :: rest => (.object [], some rest)
        | rest => let (members, rest) := members fuel (room - 1) rest; (.object members, rest)
    | '"' :: rest => textValue rest
    | rest => plainValue rest

/-- The items of a list, of which there is at least one, up to its closing bracket. -/
def items : Nat → Nat → List Char → Reading (List Json)
  | 0, _, _ => ([.broken], none)
  | fuel + 1, room, cs =>
    match value fuel room cs with
    | (j, none) => ([j], none)
    | (j, some rest) =>
      match skipBlanks rest with
      | ',' :: rest => let (more, rest) := items fuel room rest; (j :: more, rest)
      | ']' :: rest => ([j], some rest)
      | _ => ([j, .broken], none)

/-- The members of an object, of which there is at least one, up to its closing brace. -/
def members : Nat → Nat → List Char → Reading Members
  | 0, _, _ => ([(none, .broken)], none)
  | fuel + 1, room, cs =>
    match skipBlanks cs with
    | '"' :: rest =>
      match string? rest with
      | none => ([(none, .broken)], none)
      | some (key, rest) =>
        match skipBlanks rest with
        | ':' :: rest =>
          match value fuel room rest with
          | (j, none) => ([(key, j)], none)
          | (j, some rest) =>
            match skipBlanks rest with
            | ',' :: rest => let (more, rest) := members fuel room rest; ((key, j) :: more, rest)
            | '\x7d' :: rest => ([(key, j)], some rest)
            | _ => ([(key, j), (none, .broken)], none)
        | _ => ([(key, .broken)], none)
    | _ => ([(none, .broken)], none)

end

/-- A whole text: the document at its front, and whether nothing but blanks follows. -/
structure Page where
  document : Json
  isWhole : Bool

/-- Reads a text. Two rounds are enough for each character: one to enter a list or an object, one to
read what is in it. -/
def read (s : String) : Page :=
  let cs := s.toList
  match value (2 * cs.length + 2) nestingLimit cs with
  | (j, none) => ⟨j, false⟩
  | (j, some rest) => ⟨j, (skipBlanks rest).isEmpty⟩

end Labyrinth.Json
