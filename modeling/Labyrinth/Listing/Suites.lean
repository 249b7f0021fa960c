import Labyrinth.Listing.Styles

/-!
# Suites

What a Python text owes to its heads. The line that begins a function or a loop ends in a colon and
wants a suite: the next line that is not blank has to be indented one level deeper.
-/

namespace Labyrinth

namespace Suite

variable {α : Type} (opens : α → Prop) (answers : α → α → Prop)

/-- What opens something is directly followed by something that answers it. -/
def Followed : List α → Prop
  | [] => True
  | a :: rest => (opens a → ∃ b ∈ rest.head?, answers a b) ∧ Followed rest

instance decidableFollowed [DecidablePred opens] [∀ a b, Decidable (answers a b)] :
    (l : List α) → Decidable (Followed opens answers l)
  | [] => isTrue trivial
  | a :: rest =>
    have := decidableFollowed rest
    inferInstanceAs (Decidable ((opens a → ∃ b ∈ rest.head?, answers a b) ∧ _))

/-- How many blanks stand before a line. -/
def indentation (line : List Char) : Nat := (line.takeWhile (· = ' ')).length

/-- A line without its indentation. -/
def content (line : List Char) : List Char := line.dropWhile (· = ' ')

/-- The line begins the function or a loop. -/
def IsHead (line : List Char) : Prop :=
  content line = "def solve_maze():".toList ∨
    ∃ times : Nat, content line = s!"for _ in range({times}):".toList

/-- The lines of a text that are not blank. -/
def filledLines (text : String) : List (List Char) :=
  (text.toList.splitOn '\n').filter (content · ≠ [])

/-- The second line is indented one level more. -/
def Deeper (head next : List Char) : Prop := indentation next = indentation head + 4

/-- Each head is followed, as its next line that is not blank, by one that is one level deeper. -/
def WellSuited (text : String) : Prop := Followed IsHead Deeper (filledLines text)

end Suite

/-- Each opening bracket has a block behind it that is no closing one. -/
def Program.RepeatsFilled (p : Program) : Prop :=
  Suite.Followed (·.kind = .repeatStart) (fun _ next => next.kind ≠ .repeatEnd) p.blocks

instance (p : Program) : Decidable p.RepeatsFilled := Suite.decidableFollowed _ _ p.blocks

end Labyrinth
