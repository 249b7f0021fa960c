import Labyrinth.Json.Reader
import Labyrinth.Maze.Basic

/-!
# Codecs

A codec writes the values of a type as documents and reads documents as values of it. Reading looks
at a document in document order and reports the first problem: that the document does not have the
form asked for, or that what it holds is refused.
-/

namespace Labyrinth

/-- Why a document is not read as a value. -/
inductive DecodeError where
  /-- The document is damaged or does not have the form asked for. -/
  | malformed
  /-- What the document holds is refused. -/
  | refused (e : MazeError)
  deriving DecidableEq, Repr

/-- How documents are read as values of a type. -/
abbrev Decoder (α : Type) := Json → Except DecodeError α

/-- How the values of a type are written as documents, and read. -/
structure Codec (α : Type) where
  encode : α → Json
  decode : Decoder α

namespace Codec

/-- Reads a text that holds one document. That nothing else follows is checked last. -/
def decodeText {α : Type} (c : Codec α) (s : String) : Except DecodeError α := do
  let page := Json.read s
  let a ← c.decode page.document
  if page.isWhole then return a else throw .malformed

/-! ## Plain values -/

/-- The integers from `low` to `high`. -/
def intBetween (low high : Int) : Codec Int where
  encode n := .int n
  decode
    | .int n => if low ≤ n ∧ n ≤ high then .ok n else .error .malformed
    | _ => .error .malformed

/-- A coordinate, an extent, or any other signed number: 32 bits. -/
def coordinate : Codec Int := intBetween (-0x80000000) 0x7fffffff

/-- A natural number below a bound. -/
def natural (bound : Nat) : Codec Nat where
  encode n := .int n
  decode j := ((intBetween 0 (bound - 1)).decode j).map Int.toNat

/-- A position in a list, or a number of things. -/
def index : Codec Nat := natural UInt64.size

/-- A number of steps. -/
def stepCount : Codec Nat := natural UInt32.size

/-- A 32-bit word. -/
def word : Codec UInt32 where
  encode n := .int n.toNat
  decode j := ((natural UInt32.size).decode j).map UInt32.ofNat

/-- An 8-bit word. -/
def smallWord : Codec UInt8 where
  encode n := .int n.toNat
  decode j := ((natural UInt8.size).decode j).map UInt8.ofNat

/-- A truth value. -/
def bool : Codec Bool where
  encode b := .bool b
  decode
    | .bool b => .ok b
    | _ => .error .malformed

/-- A text. -/
def text : Codec String where
  encode s := .text s
  decode
    | .text s => .ok s
    | _ => .error .malformed

/-- One of several values that have names. Beside the bare name, an object is read whose only key is
the name and whose value is `null`. -/
def choice {α : Type} (all : List α) (name : α → String) : Codec α where
  encode a := .text (name a)
  decode j :=
    let named (s : String) := (all.find? (name · = s)).elim (.error .malformed) .ok
    match j with
    | .text s => named s
    | .object [(some key, .null)] => named key
    | _ => .error .malformed

/-! ## Compound values -/

/-- Reads items in order. -/
def decodeItems {α : Type} (decode : Decoder α) : List Json → Except DecodeError (List α)
  | [] => .ok []
  | j :: rest => do
    let a ← decode j
    let more ← decodeItems decode rest
    return a :: more

/-- A list of values. -/
def listOf {α : Type} (c : Codec α) : Codec (List α) where
  encode := Json.listOf c.encode
  decode
    | .list items => decodeItems c.decode items
    | _ => .error .malformed

/-- A value that may be missing, for which `null` stands then. -/
def orNull {α : Type} (c : Codec α) : Codec (Option α) where
  encode := Json.orNull c.encode
  decode
    | .null => .ok none
    | j => (c.decode j).map some

end Codec

end Labyrinth
