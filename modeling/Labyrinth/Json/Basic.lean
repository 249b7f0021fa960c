/-!
# Documents

A JSON document as it was read, from its front to the first place where it stops being one. Reading
never fails as a whole: what cannot be read stands in the tree where it was met, so that whoever
walks the tree in document order comes to the first problem first.

Two things can be wrong with a part of a document. It is *broken* where the text stops being JSON;
nothing after that place was read. It is *unreadable* where the text is JSON but stands for no
value: half of a surrogate pair, a number that no double can hold, or lists and objects nested more
deeply than is allowed. Unreadable parts do no harm where nobody asks for their value.
-/

namespace Labyrinth

/-- A JSON document. -/
inductive Json where
  | null
  | bool (b : Bool)
  | int (n : Int)
  /-- A number that is not written as an integer, and negative zero, as it is written. -/
  | real (literal : String)
  | text (s : String)
  | list (items : List Json)
  /-- The members in document order, repeated ones included. A key that is unreadable is `none`, and
  so is one at which the text breaks. -/
  | object (members : List (Option String × Json))
  | unreadable
  | broken
  deriving Inhabited

namespace Json

/-- The members of an object. -/
abbrev Members := List (Option String × Json)

/-- An object with the given members. -/
def record (members : List (String × Json)) : Json :=
  .object (members.map fun (key, value) => (some key, value))

/-- A list of things that are each written as a document. -/
def listOf {α : Type} (f : α → Json) (items : List α) : Json := .list (items.map f)

/-- A thing that may be missing, in which case `null` stands for it. -/
def orNull {α : Type} (f : α → Json) : Option α → Json
  | none => .null
  | some a => f a

/-! ## What is wrong with a document -/

mutual

/-- The text of the document is JSON to its end. -/
def intact : Json → Bool
  | broken => false
  | list items => intactItems items
  | object members => intactMembers members
  | _ => true

/-- All of the items are intact. -/
def intactItems : List Json → Bool
  | [] => true
  | j :: rest => j.intact && intactItems rest

/-- All of the members are intact. -/
def intactMembers : Members → Bool
  | [] => true
  | (_, j) :: rest => j.intact && intactMembers rest

end

mutual

/-- Every part of the document stands for a value. -/
def readable : Json → Bool
  | broken | unreadable => false
  | list items => readableItems items
  | object members => readableMembers members
  | _ => true

/-- All of the items are readable. -/
def readableItems : List Json → Bool
  | [] => true
  | j :: rest => j.readable && readableItems rest

/-- All of the members are readable, with their keys. -/
def readableMembers : Members → Bool
  | [] => true
  | (key, j) :: rest => key.isSome && j.readable && readableMembers rest

end

/-! ## Canonical documents -/

/-- Puts a member at its place in a list that is sorted by key, where it replaces one of the same
key. -/
def placeMember (key : Option String) (value : Json) : Members → Members
  | [] => [(key, value)]
  | (k, v) :: rest =>
    if key = k then (key, value) :: rest
    else if key.getD "" < k.getD "" then (key, value) :: (k, v) :: rest
    else (k, v) :: placeMember key value rest

/-- The members sorted by key, and of several with one key the last. -/
def sortMembers (members : Members) : Members :=
  members.foldl (fun sorted (key, value) => placeMember key value sorted) []

mutual

/-- The document in which every object is sorted by key and has each key once. -/
def canonical : Json → Json
  | list items => .list (canonicalItems items)
  | object members => .object (sortMembers (canonicalMembers members))
  | j => j

/-- Makes each of the items canonical. -/
def canonicalItems : List Json → List Json
  | [] => []
  | j :: rest => j.canonical :: canonicalItems rest

/-- Makes the value of each of the members canonical. -/
def canonicalMembers : Members → Members
  | [] => []
  | (key, j) :: rest => (key, j.canonical) :: canonicalMembers rest

end

end Json

end Labyrinth
