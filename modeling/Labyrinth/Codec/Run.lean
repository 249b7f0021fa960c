import Labyrinth.Codec.Maze
import Labyrinth.Codec.Record
import Labyrinth.Session

/-!
# Documents of programs and runs

A block is a record of its id, its kind and perhaps a count; a program is the list of its blocks.
The settings of a run, the entries of its trace, the verdict on it and the summary of a verdict are
records too.
-/

namespace Labyrinth

/-! ## Programs -/

/-- The documents of kinds of blocks. -/
def BlockKind.codec : Codec BlockKind := .choice all name

/-- A block is a record that may lack the count. -/
def Block.form : Form Block :=
  Block.mk <$> .required "id" Codec.text.decode <*> .required "type" BlockKind.codec.decode <*>
    .optional "repeatCount" Codec.word

/-- The documents of blocks. The count is written where there is one. -/
def Block.codec : Codec Block where
  encode b :=
    .record <| [("id", .text b.id), ("type", BlockKind.codec.encode b.kind)] ++
      b.repeatCount.toList.map fun count => ("repeatCount", Codec.word.encode count)
  decode := form.decode

/-- The documents of programs. -/
def Program.codec : Codec Program where
  encode p := Block.codec.listOf.encode p.blocks
  decode j := (Block.codec.listOf.decode j).map Program.mk

/-! ## Runs -/

/-- The thresholds of the star rating are a record in which each has a default. -/
def StarThresholds.form : Form StarThresholds :=
  let d : StarThresholds := {}
  StarThresholds.mk <$> .withDefault "three" d.three Codec.word.decode <*>
    .withDefault "two" d.two Codec.word.decode <*> .withDefault "one" d.one Codec.word.decode

/-- The documents of thresholds. -/
def StarThresholds.codec : Codec StarThresholds where
  encode s :=
    .record [("three", Codec.word.encode s.three), ("two", Codec.word.encode s.two),
      ("one", Codec.word.encode s.one)]
  decode := form.decode

/-- The settings of a run are a record in which each has a default. -/
def RunConfig.form : Form RunConfig :=
  let d : RunConfig := {}
  RunConfig.mk <$> .withDefault "max_steps" d.maxSteps Codec.word.decode <*>
    .withDefault "stars" d.stars StarThresholds.codec.decode <*>
    .withDefault "record_trace" d.recordTrace Codec.bool.decode

/-- The documents of settings. -/
def RunConfig.codec : Codec RunConfig where
  encode c :=
    .record [("max_steps", Codec.word.encode c.maxSteps),
      ("stars", StarThresholds.codec.encode c.stars), ("record_trace", .bool c.recordTrace)]
  decode := form.decode

/-- The documents of outcomes. -/
def Outcome.codec : Codec Outcome := .choice all name

/-- An entry of a trace is a record that may lack the error message. -/
def TraceEntry.form : Form TraceEntry :=
  TraceEntry.mk <$> .required "blockIndex" Codec.index.decode <*>
    .required "blockId" Codec.text.decode <*> .required "blockType" BlockKind.codec.decode <*>
    .required "robotBefore" Robot.codec.decode <*> .required "robotAfter" Robot.codec.decode <*>
    .required "action" Codec.text.decode <*> .required "success" Codec.bool.decode <*>
    .optional "errorMessage" Codec.text

/-- The documents of entries. The error message is written where there is one. -/
def TraceEntry.codec : Codec TraceEntry where
  encode e :=
    .record <| [("blockIndex", Codec.index.encode e.blockIndex), ("blockId", .text e.blockId),
        ("blockType", BlockKind.codec.encode e.blockKind),
        ("robotBefore", Robot.codec.encode e.before), ("robotAfter", Robot.codec.encode e.after),
        ("action", .text e.action), ("success", .bool e.success)] ++
      e.errorMessage.toList.map fun message => ("errorMessage", .text message)
  decode := form.decode

/-- A verdict is a record that may lack the trace. -/
def Verdict.form : Form Verdict :=
  Verdict.mk <$> .required "outcome" Outcome.codec.decode <*>
    .required "success" Codec.bool.decode <*> .required "message" Codec.text.decode <*>
    .required "finalRobot" Robot.codec.decode <*> .required "steps" Codec.stepCount.decode <*>
    .required "stars" Codec.smallWord.decode <*> .optional "trace" TraceEntry.codec.listOf

/-- The documents of verdicts. The trace is written where there is one. -/
def Verdict.codec : Codec Verdict where
  encode v :=
    .record <| [("outcome", Outcome.codec.encode v.outcome), ("success", .bool v.success),
        ("message", .text v.message), ("finalRobot", Robot.codec.encode v.finalRobot),
        ("steps", Codec.stepCount.encode v.steps), ("stars", Codec.smallWord.encode v.stars)] ++
      v.trace.toList.map fun entries => ("trace", TraceEntry.codec.listOf.encode entries)
  decode := form.decode

/-- A summary is a record. -/
def RunSummary.form : Form RunSummary :=
  RunSummary.mk <$> .required "success" Codec.bool.decode <*>
    .required "stars" Codec.smallWord.decode <*> .required "blockCount" Codec.index.decode <*>
    .required "usedLoop" Codec.bool.decode

/-- The documents of summaries. -/
def RunSummary.codec : Codec RunSummary where
  encode s :=
    .record [("success", .bool s.success), ("stars", Codec.smallWord.encode s.stars),
      ("blockCount", Codec.index.encode s.blockCount), ("usedLoop", .bool s.usedLoop)]
  decode := form.decode

end Labyrinth
