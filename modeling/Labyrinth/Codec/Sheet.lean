import Labyrinth.Codec.Maze
import Mathlib.Data.List.Forall2

/-!
# Sheets of mazes

What the document of a maze says before the names in it are read as walls. Many sheets tell of one
maze: its walls may be listed in any order and more than once, each by any of its names, with or
without those of the outer edge.
-/

namespace Labyrinth

/-- What the document of a maze says, its walls by their names. -/
structure MazeSheet where
  width : Int
  height : Int
  start : Cell
  goal : Cell
  /-- The names of walls, in the order of the document. -/
  names : List String
  deriving DecidableEq

namespace MazeSheet

/-- A sheet has the fields of a maze, with any texts for walls. -/
def form : Form MazeSheet :=
  MazeSheet.mk <$> .required "width" Codec.coordinate.decode <*>
    .required "height" Codec.coordinate.decode <*> .required "start" Cell.codec.decode <*>
    .required "goal" Cell.codec.decode <*> .required "walls" Codec.text.listOf.decode

/-- The documents of sheets. -/
def codec : Codec MazeSheet where
  encode s :=
    .record [("width", .int s.width), ("height", .int s.height),
      ("start", Cell.codec.encode s.start), ("goal", Cell.codec.encode s.goal),
      ("walls", Codec.text.listOf.encode s.names)]
  decode := form.decode

def grid (s : MazeSheet) : Grid := ⟨s.width, s.height⟩

/-- All the names are names of walls, and these are the walls, one for each name. -/
def Denotes (s : MazeSheet) (walls : List Wall) : Prop :=
  List.Forall₂ (fun name w => Wall.parse name = .ok w) s.names walls

/-- The text holds the sheet, and the names on it denote the walls. -/
structure Describes (text : String) (s : MazeSheet) (walls : List Wall) : Prop where
  holds : codec.decodeText text = .ok s
  denotes : s.Denotes walls

end MazeSheet

/-- The sheet on which a maze is written. -/
def Maze.sheet (m : Maze) : MazeSheet :=
  ⟨m.width, m.height, m.start, m.goal, m.walls.toList.map Wall.name⟩

end Labyrinth
