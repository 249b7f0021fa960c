import Labyrinth.Codec.Record
import Labyrinth.Maze.Basic
import Labyrinth.Robot

/-!
# Documents of mazes and robots

Cells, headings and robots, and the walls and mazes around them. A wall is written as its name. A
maze lists all of its walls in order, those of the outer edge included; on reading, the order of the
list and the outer edge do not matter, and the maze is built anew.
-/

namespace Labyrinth

/-- A cell is a record of its two coordinates. -/
def Cell.form : Form Cell :=
  Cell.mk <$> .required "x" Codec.coordinate.decode <*> .required "y" Codec.coordinate.decode

/-- The documents of cells. -/
def Cell.codec : Codec Cell where
  encode c := .record [("x", .int c.x), ("y", .int c.y)]
  decode := form.decode

/-- The documents of headings. -/
def Heading.codec : Codec Heading := .choice all name

/-- A robot is a record of its coordinates and its heading. -/
def Robot.form : Form Robot :=
  (fun x y heading => ⟨⟨x, y⟩, heading⟩) <$> .required "x" Codec.coordinate.decode <*>
    .required "y" Codec.coordinate.decode <*> .required "direction" Heading.codec.decode

/-- The documents of robots. -/
def Robot.codec : Codec Robot where
  encode r :=
    .record [("x", .int r.position.x), ("y", .int r.position.y),
      ("direction", Heading.codec.encode r.heading)]
  decode := form.decodeReadable

/-- The documents of walls. -/
def Wall.codec : Codec Wall where
  encode w := .text w.name
  decode
    | .text s => (Wall.parse s).mapError .refused
    | _ => .error .malformed

/-- What the document of a maze says, before it is known to be a maze. -/
structure MazeRecord where
  width : Int
  height : Int
  start : Cell
  goal : Cell
  walls : List Wall

/-- A maze is a record of its extent, its two marked cells and its walls. -/
def MazeRecord.form : Form MazeRecord :=
  MazeRecord.mk <$> .required "width" Codec.coordinate.decode <*>
    .required "height" Codec.coordinate.decode <*> .required "start" Cell.codec.decode <*>
    .required "goal" Cell.codec.decode <*> .required "walls" Wall.codec.listOf.decode

/-- Builds the maze that a document describes. Its walls are checked in their own order, not in that
of the document. -/
def MazeRecord.toMaze (r : MazeRecord) : Except MazeError Maze :=
  Maze.build ⟨r.width, r.height⟩ r.start r.goal (WallSet.ofList r.walls).toList

/-- The documents of mazes. -/
def Maze.codec : Codec Maze where
  encode m :=
    .record [("width", .int m.width), ("height", .int m.height),
      ("start", Cell.codec.encode m.start), ("goal", Cell.codec.encode m.goal),
      ("walls", Wall.codec.listOf.encode m.walls.toList)]
  decode j := do
    let r ← MazeRecord.form.decode j
    r.toMaze.mapError .refused

end Labyrinth
