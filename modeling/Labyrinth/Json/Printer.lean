import Labyrinth.Json.Basic

/-!
# Writing documents

A document is written without blanks. What cannot be seen or would end a string is written as an
escape. The parts of a damaged document that stand for no value are left out.
-/

namespace Labyrinth.Json

/-- A control character as four hexadecimal digits. -/
def controlEscape (c : Char) : String :=
  let digits := Nat.toDigits 16 c.toNat
  "\\u" ++ String.ofList (List.replicate (4 - digits.length) '0' ++ digits)

/-- One character inside a string. -/
def escapedChar (c : Char) : String :=
  match c with
  | '"' => "\\\""
  | '\\' => "\\\\"
  | '\n' => "\\n"
  | '\r' => "\\r"
  | '\t' => "\\t"
  | '\x08' => "\\b"
  | '\x0c' => "\\f"
  | c => if c.toNat < 0x20 then controlEscape c else c.toString

/-- A string with its quotes. -/
def writtenText (s : String) : String := "\"" ++ String.join (s.toList.map escapedChar) ++ "\""

mutual

/-- The written form of a document. -/
def write : Json → String
  | null => "null"
  | bool b => if b then "true" else "false"
  | int n => toString n
  | real literal => literal
  | text s => writtenText s
  | list items => "[" ++ String.intercalate "," (writeItems items) ++ "]"
  | object members => "\x7b" ++ String.intercalate "," (writeMembers members) ++ "\x7d"
  | unreadable | broken => ""

/-- The written forms of items. -/
def writeItems : List Json → List String
  | [] => []
  | j :: rest => j.write :: writeItems rest

/-- The written forms of members. -/
def writeMembers : Members → List String
  | [] => []
  | (key, j) :: rest => (writtenText (key.getD "") ++ ":" ++ j.write) :: writeMembers rest

end

end Labyrinth.Json
