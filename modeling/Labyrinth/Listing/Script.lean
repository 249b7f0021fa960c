import Labyrinth.Program.Basic
import Labyrinth.Text

/-!
# Scripts

The body of a JavaScript function read as what it does.

**Reading** (`read?`). Each line is a call, the head of a counted loop or a closing brace; blank
lines say nothing. The lines are nested with a stack (`nest?`): a closing brace ends the loop that
was begun last. A brace that ends no loop and a loop that is not ended are errors.

**Running** (`Statement.callsAll`). The calls in the order in which they are made, those in a loop
as often as its head says.

Braces are also counted on their own, in any text (`bracesMatch`).
-/

namespace Labyrinth.Script

/-- What a script tells the robot to do. -/
inductive Call where
  | moveForward
  | turnLeft
  | turnRight
  | wait
  deriving DecidableEq, Repr

namespace Call

/-- Every call. -/
def all : List Call := [moveForward, turnLeft, turnRight, wait]

/-- A call as it stands in the text. -/
def code : Call → String
  | moveForward => "moveForward();"
  | turnLeft => "turnLeft();"
  | turnRight => "turnRight();"
  | wait => "wait(1);"

/-- The block that does the same. -/
def kind : Call → BlockKind
  | moveForward => .forward
  | turnLeft => .turnLeft
  | turnRight => .turnRight
  | wait => .wait

theorem mem_all (c : Call) : c ∈ all := by
  cases c <;> decide

end Call

/-- What a line says. -/
inductive Token where
  | call (c : Call)
  /-- The head of a loop. -/
  | opening (times : Nat)
  /-- The end of a loop. -/
  | closing
  deriving DecidableEq, Repr

inductive Statement where
  | call (c : Call)
  | loop (times : Nat) (body : List Statement)

namespace Statement

mutual

/-- The calls that a statement makes. -/
def calls : Statement → List Call
  | call c => [c]
  | loop times body => (List.replicate times (callsAll body)).flatten

/-- The calls that statements make one after the other. -/
def callsAll : List Statement → List Call
  | [] => []
  | s :: rest => s.calls ++ callsAll rest

end

end Statement

/-! ## Nesting -/

/-- A loop whose end is still to come. -/
structure OpenLoop where
  times : Nat
  /-- The statements in front of it, back to the head of the loop around it. -/
  before : List Statement

/-- The statements that tokens make. The loops of a list are open before the tokens, innermost
first, and the innermost has got the given statements so far. -/
def nest? : List OpenLoop → List Statement → List Token → Option (List Statement)
  | [], done, [] => some done
  | _ :: _, _, [] => none
  | loops, done, .call c :: rest => nest? loops (done ++ [.call c]) rest
  | loops, done, .opening times :: rest => nest? (⟨times, done⟩ :: loops) [] rest
  | [], _, .closing :: _ => none
  | inner :: outer, done, .closing :: rest =>
    nest? outer (inner.before ++ [.loop inner.times done]) rest

/-! ## Reading -/

/-- How often the body of a loop is run, by its head. -/
def loopTimes? (line : List Char) : Option Nat :=
  let front := "for (let i = 0; i < ".toList
  let (digits, tail) := Text.spanDigits (line.drop front.length)
  if front.isPrefixOf line ∧ tail = "; i++) \x7b".toList then Text.natural? digits else none

/-- What a line without its indentation says. -/
def token? (line : List Char) : Option Token :=
  if line = "\x7d".toList then some .closing
  else (loopTimes? line).map .opening <|> (Call.all.find? (·.code.toList = line)).map .call

/-- What the lines of a text say. -/
def tokens? (text : String) : Option (List Token) :=
  let lines := (text.toList.splitOn '\n').map (·.dropWhile (· = ' '))
  (lines.filter (· ≠ [])).mapM token?

/-- The statements of a text. -/
def read? (text : String) : Option (List Statement) := (tokens? text).bind (nest? [] [])

/-! ## Braces -/

/-- Each brace has its partner among the characters, but for as many closing ones as there are
braces open before them. -/
def bracesMatch : Nat → List Char → Bool
  | depth, [] => depth == 0
  | depth, c :: rest =>
    if c = '\x7b' then bracesMatch (depth + 1) rest
    else if c = '\x7d' then depth != 0 && bracesMatch (depth - 1) rest
    else bracesMatch depth rest

end Labyrinth.Script
