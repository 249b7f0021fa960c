import Labyrinth.Codec.Basic

/-!
# Records

A record is an object with known fields, or the list of their values in order. `Form` describes how
a record is read: which fields it has, how each is checked, and how the value is put together.

Members are checked in document order, so that the first problem is the one reported. A field that
occurs twice is a problem even before its value is looked at, and a member that is no field only has
to be intact. The value is put together afterwards, when only missing fields can be a problem.
-/

namespace Labyrinth

/-- How records of a type are read. -/
structure Form (α : Type) where
  /-- The fields in order, each with what is required of its value. -/
  fields : List (String × Decoder Unit)
  /-- Puts the value together from members that have been checked. -/
  build : Json.Members → Except DecodeError α

namespace Form

/-- A record without fields. -/
protected def pure {α : Type} (a : α) : Form α := ⟨[], fun _ => .ok a⟩

/-- A record with the fields of two others. -/
protected def seq {α β : Type} (f : Form (α → β)) (x : Form α) : Form β where
  fields := f.fields ++ x.fields
  build ms := do
    let g ← f.build ms
    let a ← x.build ms
    return g a

instance : Applicative Form where
  pure := Form.pure
  seq f x := Form.seq f (x ())

/-- The value of a field. -/
def valueOf? (name : String) (ms : Json.Members) : Option Json := ms.lookup (some name)

/-- A field that has to be there. -/
def required {α : Type} (name : String) (decode : Decoder α) : Form α where
  fields := [(name, fun j => discard (decode j))]
  build ms :=
    match valueOf? name ms with
    | some j => decode j
    | none => .error .malformed

/-- A field that has a default. -/
def withDefault {α : Type} (name : String) (default : α) (decode : Decoder α) : Form α where
  fields := [(name, fun j => discard (decode j))]
  build ms :=
    match valueOf? name ms with
    | some j => decode j
    | none => .ok default

/-- A field that may be missing or `null`. -/
def optional {α : Type} (name : String) (c : Codec α) : Form (Option α) :=
  withDefault name none c.orNull.decode

/-! ## Reading -/

/-- Gives the items of a list the names of fields. An item too many gets no key. -/
def label : List String → List Json → Json.Members
  | name :: names, j :: rest => (some name, j) :: label names rest
  | [], j :: _ => [(none, j)]
  | _, [] => []

/-- Checks members in order. `seen` holds the fields met so far, and `ignorable` says what is
required of members that are no fields. -/
def check (ignorable : Json → Bool) (fields : List (String × Decoder Unit)) :
    List String → Json.Members → Except DecodeError Unit
  | _, [] => .ok ()
  | _, (none, _) :: _ => .error .malformed
  | seen, (some key, j) :: rest =>
    match fields.lookup key with
    | none => if ignorable j then check ignorable fields seen rest else .error .malformed
    | some field =>
      if key ∈ seen then .error .malformed
      else do
        field j
        check ignorable fields (key :: seen) rest

/-- Reads the members of a record. -/
def ofMembers {α : Type} (f : Form α) (ignorable : Json → Bool) (ms : Json.Members) :
    Except DecodeError α := do
  check ignorable f.fields [] ms
  f.build ms

/-- Reads a record, written as an object or as a list. -/
def decode {α : Type} (f : Form α) : Decoder α
  | .object ms => f.ofMembers Json.intact ms
  | .list items => f.ofMembers Json.intact (label (f.fields.map Prod.fst) items)
  | _ => .error .malformed

/-- Reads a record that is written as an object, of which every member has to be readable. -/
def decodeReadable {α : Type} (f : Form α) : Decoder α
  | .object ms => f.ofMembers Json.readable ms
  | _ => .error .malformed

end Form

end Labyrinth
