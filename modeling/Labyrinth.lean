import Labyrinth.Cell
import Labyrinth.Codec.Basic
import Labyrinth.Codec.Maze
import Labyrinth.Codec.Record
import Labyrinth.Codec.Run
import Labyrinth.Codec.Sheet
import Labyrinth.Event
import Labyrinth.Grid
import Labyrinth.Json.Basic
import Labyrinth.Json.Magnitude
import Labyrinth.Json.Numeral
import Labyrinth.Json.Printer
import Labyrinth.Json.Reader
import Labyrinth.Listing.Basic
import Labyrinth.Listing.Script
import Labyrinth.Listing.Styles
import Labyrinth.Listing.Suites
import Labyrinth.Maze.Basic
import Labyrinth.Maze.Carving
import Labyrinth.Maze.Checked
import Labyrinth.Maze.Drawing
import Labyrinth.Partition
import Labyrinth.Partition.Queries
import Labyrinth.Path.Hint
import Labyrinth.Path.Precedence
import Labyrinth.Path.Search
import Labyrinth.Path.Trail
import Labyrinth.Path.Walk
import Labyrinth.Program.Basic
import Labyrinth.Program.Nesting
import Labyrinth.Program.Outline
import Labyrinth.Program.Unrolling
import Labyrinth.Proofs.Codec.Accepted
import Labyrinth.Proofs.Codec.Forms
import Labyrinth.Proofs.Codec.RoundTrip
import Labyrinth.Proofs.Codec.Sheets
import Labyrinth.Proofs.Json.Documents
import Labyrinth.Proofs.Json.Numbers
import Labyrinth.Proofs.Json.Strings
import Labyrinth.Proofs.Listing.Faithful
import Labyrinth.Proofs.Listing.Legible
import Labyrinth.Proofs.Listing.Script
import Labyrinth.Proofs.Listing.Suites
import Labyrinth.Proofs.Listing.Tokens
import Labyrinth.Proofs.Maze.Building
import Labyrinth.Proofs.Maze.Cells
import Labyrinth.Proofs.Maze.Drawing
import Labyrinth.Proofs.Maze.Edges
import Labyrinth.Proofs.Maze.Encoding
import Labyrinth.Proofs.Maze.Greedy
import Labyrinth.Proofs.Maze.Perfect
import Labyrinth.Proofs.Maze.Places
import Labyrinth.Proofs.Maze.Spanning
import Labyrinth.Proofs.Maze.Trees
import Labyrinth.Proofs.Partition.Hops
import Labyrinth.Proofs.Partition.Labels
import Labyrinth.Proofs.Partition.Queries
import Labyrinth.Proofs.Path.BreadthFirst
import Labyrinth.Proofs.Path.Fewest
import Labyrinth.Proofs.Path.Hint
import Labyrinth.Proofs.Path.Passages
import Labyrinth.Proofs.Path.Progress
import Labyrinth.Proofs.Path.TieBreak
import Labyrinth.Proofs.Path.Trail
import Labyrinth.Proofs.Positions
import Labyrinth.Proofs.Program.Brackets
import Labyrinth.Proofs.Program.Lengths
import Labyrinth.Proofs.Program.Levels
import Labyrinth.Proofs.Program.Measure
import Labyrinth.Proofs.Program.Mending
import Labyrinth.Proofs.Program.Unmatched
import Labyrinth.Proofs.Program.Written
import Labyrinth.Proofs.Run.Account
import Labyrinth.Proofs.Run.Bookkeeping
import Labyrinth.Proofs.Run.Budget
import Labyrinth.Proofs.Run.Control
import Labyrinth.Proofs.Run.Course
import Labyrinth.Proofs.Run.FewerWalls
import Labyrinth.Proofs.Run.History
import Labyrinth.Proofs.Run.Interruption
import Labyrinth.Proofs.Run.Log
import Labyrinth.Proofs.Run.Pacing
import Labyrinth.Proofs.Run.Position
import Labyrinth.Proofs.Run.Reachable
import Labyrinth.Proofs.Run.Record
import Labyrinth.Proofs.Run.Recording
import Labyrinth.Proofs.Run.Refinement
import Labyrinth.Proofs.Run.Replay
import Labyrinth.Proofs.Run.Reshaping
import Labyrinth.Proofs.Run.Steps
import Labyrinth.Proofs.Run.Termination
import Labyrinth.Proofs.Session.Hints
import Labyrinth.Proofs.Text
import Labyrinth.Proofs.Wall.Enumeration
import Labyrinth.Proofs.Wall.Name
import Labyrinth.Proofs.Wall.Spelling
import Labyrinth.Random.Shuffle
import Labyrinth.Robot
import Labyrinth.Run.Checked
import Labyrinth.Run.Config
import Labyrinth.Run.Execution
import Labyrinth.Run.History
import Labyrinth.Run.Paced
import Labyrinth.Run.Replay
import Labyrinth.Run.Trace
import Labyrinth.Run.Turns
import Labyrinth.Run.Unrolled
import Labyrinth.Run.Verdict
import Labyrinth.Session
import Labyrinth.Text
import Labyrinth.Wall.Basic
import Labyrinth.Wall.Enumeration
import Labyrinth.Wall.Name
import Labyrinth.Wall.Set
