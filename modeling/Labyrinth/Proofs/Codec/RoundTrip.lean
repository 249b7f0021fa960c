import Labyrinth.Codec.Run
import Labyrinth.Json.Printer
import Labyrinth.Proofs.Codec.Forms
import Labyrinth.Proofs.Maze.Building
import Labyrinth.Proofs.Wall.Name

/-!
# Documents are read back

**Theorem (`documents_round_trip`).** Every value whose numbers fit is read back from its document,
and from its text: mazes, robots, headings, blocks, programs, settings and their thresholds,
outcomes, entries of traces, verdicts, summaries and walls.

Documents hold signed numbers of 32 bits and counts of 32 or 64 bits. A value is *sized* if its
numbers have these sizes; what holds no number other than words is always so.

Each codec keeps the values of its type, one lemma per type from the lemmas on its fields. A field
that may be missing is written where there is a value and read as none where there is not. A maze is
built anew from its record: its walls all fit, and the outer edge is among them already
(`Maze.toMaze_record`).
-/

namespace Labyrinth

/-! ## Values that documents can hold -/

/-- Writing a value and reading it gives the value back. -/
def Codec.RoundTrips {α : Type} (c : Codec α) (a : α) : Prop :=
  c.decode (c.encode a) = .ok a ∧ c.decodeText (c.encode a).write = .ok a

def Robot.Sized (r : Robot) : Prop := r.position.Sized

instance (r : Robot) : Decidable r.Sized := inferInstanceAs (Decidable r.position.Sized)

/-- The wall has a name: its coordinates are sized and not negative. -/
def Wall.Sized (w : Wall) : Prop :=
  (0 ≤ w.x ∧ w.x ≤ 0x7fffffff) ∧ (0 ≤ w.y ∧ w.y ≤ 0x7fffffff)

instance (w : Wall) : Decidable w.Sized := inferInstanceAs (Decidable ((_ ∧ _) ∧ _ ∧ _))

/-- The extent is sized, and so the cells and the walls are. -/
def Maze.Sized (m : Maze) : Prop := Labyrinth.Sized m.width ∧ Labyrinth.Sized m.height

instance (m : Maze) : Decidable m.Sized := inferInstanceAs (Decidable (_ ∧ _))

def TraceEntry.Sized (e : TraceEntry) : Prop :=
  e.blockIndex < UInt64.size ∧ e.before.Sized ∧ e.after.Sized

instance (e : TraceEntry) : Decidable e.Sized := inferInstanceAs (Decidable (_ ∧ _ ∧ _))

def Verdict.Sized (v : Verdict) : Prop :=
  v.finalRobot.Sized ∧ v.steps < UInt32.size ∧ ∀ entries ∈ v.trace, ∀ e ∈ entries, e.Sized

instance (v : Verdict) : Decidable v.Sized :=
  inferInstanceAs (Decidable (_ ∧ _ ∧ ∀ entries ∈ v.trace, ∀ e ∈ entries, e.Sized))

def RunSummary.Sized (s : RunSummary) : Prop := s.blockCount < UInt64.size

instance (s : RunSummary) : Decidable s.Sized := inferInstanceAs (Decidable (_ < _))

open Form

variable {room : Nat}

theorem Codec.Keeps.roundTrips {α : Type} {c : Codec α} {a : α}
    (h : c.Keeps Json.nestingLimit a) : c.RoundTrips a :=
  ⟨h.decode_encode, h.decodeText_write⟩

/-! ## Cells, robots and walls -/

theorem Sized.keeps {n : Int} (h : Sized n) : Codec.coordinate.Keeps room n := by
  apply Codec.keeps_intBetween h.1 h.2
  obtain ⟨lower, upper⟩ := h
  simp only [Json.significandLimit, UInt64.size]
  omega

theorem Cell.keeps {c : Cell} (h : c.Sized) : Cell.codec.Keeps (room + 1) c := by
  have x : Codec.coordinate.Keeps room c.x := h.1.keeps
  have y : Codec.coordinate.Keeps room c.y := h.2.keeps
  refine Fits.keeps (f := form) ?_ rfl (.inl rfl) (by decide) (.refl _) ?_
  · exact ((Fits.required rfl x.decode_encode).map Cell.mk).seq (.required rfl y.decode_encode)
  · simp only [List.forall_mem_cons]
    exact ⟨x.writable, y.writable, List.forall_mem_nil _⟩

theorem Heading.keeps (h : Heading) : Heading.codec.Keeps room h := by
  apply Codec.keeps_choice
  · cases h <;> decide
  · cases h <;> decide

theorem Robot.keeps {r : Robot} (h : r.Sized) : Robot.codec.Keeps (room + 1) r := by
  have x : Codec.coordinate.Keeps room r.position.x := h.1.keeps
  have y : Codec.coordinate.Keeps room r.position.y := h.2.keeps
  have heading : Heading.codec.Keeps room r.heading := r.heading.keeps
  refine Fits.keeps (f := form) ?_ rfl (.inr rfl) (by decide) (.refl _) ?_
  · exact ((((Fits.required rfl x.decode_encode).map fun x y heading => Robot.mk ⟨x, y⟩ heading).seq
      (.required rfl y.decode_encode)).seq (.required rfl heading.decode_encode))
  · simp only [List.forall_mem_cons]
    exact ⟨x.writable, y.writable, heading.writable, List.forall_mem_nil _⟩

theorem Wall.keeps {w : Wall} (h : w.Sized) : Wall.codec.Keeps room w where
  decode_encode := by
    obtain ⟨o, x, y⟩ := w
    obtain ⟨⟨left, right⟩, top, bottom⟩ := h
    obtain ⟨x, rfl⟩ := Int.eq_ofNat_of_zero_le left
    obtain ⟨y, rfl⟩ := Int.eq_ofNat_of_zero_le top
    have named := ofName?_name o (Int.ofNat_le.1 right) (Int.ofNat_le.1 bottom)
    have parsed : Wall.parse (name ⟨o, x, y⟩) = .ok ⟨o, x, y⟩ := by
      rw [Wall.parse, named]
    simp only [codec, parsed]
    rfl
  writable := .text w.name

/-! ## Mazes -/

namespace Maze

variable {m : Maze}

theorem Sized.cell (h : m.Sized) {c : Cell} (inside : m.Contains c) : c.Sized :=
  Grid.Sized.cell h inside

theorem Sized.wall (h : m.Sized) {w : Wall} (fits : w.Fits m.toGrid) : w.Sized := by
  obtain ⟨⟨-, width⟩, -, height⟩ := h
  obtain ⟨o, x, y⟩ := w
  cases o with
  | horizontal =>
    obtain ⟨⟨left, right⟩, top, bottom⟩ := Wall.fits_horizontal.1 fits
    exact ⟨⟨left, show x ≤ _ by omega⟩, top, show y ≤ _ by omega⟩
  | vertical =>
    obtain ⟨⟨left, right⟩, top, bottom⟩ := Wall.fits_vertical.1 fits
    exact ⟨⟨left, show x ≤ _ by omega⟩, top, show y ≤ _ by omega⟩

/-- What the document of a maze says. -/
def toRecord (m : Maze) : MazeRecord := ⟨m.width, m.height, m.start, m.goal, m.walls.toList⟩

theorem close_walls (m : Maze) :
    close m.toGrid m.start m.goal m.walls.toList m.proper m.start_mem m.goal_mem m.walls_fit =
      m := by
  refine eq_of_mem_walls rfl rfl rfl fun w => ?_
  rw [mem_walls_close, WallSet.mem_toList]
  exact or_iff_left_of_imp (m.boundary_mem w)

/-- **A maze is built anew from its record.** -/
theorem toMaze_record (m : Maze) : m.toRecord.toMaze = .ok m := by
  rw [MazeRecord.toMaze, toRecord, WallSet.ofList_toList]
  exact (build_of_valid m.proper m.start_mem m.goal_mem m.walls_fit).trans
    (congrArg Except.ok m.close_walls)

theorem keeps (h : m.Sized) : Maze.codec.Keeps (room + 2) m := by
  have width : Codec.coordinate.Keeps (room + 1) m.width := h.1.keeps
  have height : Codec.coordinate.Keeps (room + 1) m.height := h.2.keeps
  have start : Cell.codec.Keeps (room + 1) m.start := Cell.keeps (h.cell m.start_mem)
  have goal : Cell.codec.Keeps (room + 1) m.goal := Cell.keeps (h.cell m.goal_mem)
  have walls : Wall.codec.listOf.Keeps (room + 1) m.walls.toList :=
    Codec.keeps_listOf fun w mem => Wall.keeps (h.wall (m.walls_fit w mem))
  constructor
  · have read : MazeRecord.form.decode (Maze.codec.encode m) = .ok m.toRecord := by
      refine Fits.ofMembers_record (f := MazeRecord.form) ?_ (by decide) (.refl _) Json.intact
      exact (((((Fits.required rfl width.decode_encode).map MazeRecord.mk).seq
        (.required rfl height.decode_encode)).seq (.required rfl start.decode_encode)).seq
        (.required rfl goal.decode_encode)).seq (.required rfl walls.decode_encode)
    show (do
      let r ← MazeRecord.form.decode (Maze.codec.encode m)
      r.toMaze.mapError DecodeError.refused) = _
    rw [read]
    show m.toRecord.toMaze.mapError _ = _
    rw [toMaze_record]
    rfl
  · apply writable_record
    simp only [List.forall_mem_cons]
    exact ⟨width.writable, height.writable, start.writable, goal.writable, walls.writable,
      List.forall_mem_nil _⟩

end Maze

/-! ## Programs -/

theorem BlockKind.keeps (k : BlockKind) : BlockKind.codec.Keeps room k := by
  apply Codec.keeps_choice
  · cases k <;> decide
  · cases k <;> decide

theorem Block.keeps (b : Block) : Block.codec.Keeps (room + 1) b := by
  have id : Codec.text.Keeps room b.id := Codec.keeps_text b.id
  have kind : BlockKind.codec.Keeps room b.kind := b.kind.keeps
  have count (n : UInt32) : Codec.word.Keeps room n := Codec.keeps_word n
  refine Fits.keeps (f := form) ?_ rfl (.inl rfl) (by decide) (keys_optional b.repeatCount) ?_
  · exact (((Fits.required rfl id.decode_encode).map Block.mk).seq
      (.required rfl kind.decode_encode)).seq
      (.optional (valueOf?_optional (by simp) b.repeatCount)
        fun n _ => ⟨(count n).decode_encode, nofun⟩)
  · apply writable_optional
    · simp only [List.forall_mem_cons]
      exact ⟨id.writable, kind.writable, List.forall_mem_nil _⟩
    · exact fun n _ => (count n).writable

theorem Program.keeps (p : Program) : Program.codec.Keeps (room + 2) p := by
  have blocks : Block.codec.listOf.Keeps (room + 2) p.blocks :=
    Codec.keeps_listOf fun b _ => b.keeps
  refine ⟨?_, blocks.writable⟩
  show (Block.codec.listOf.decode (Block.codec.listOf.encode p.blocks)).map Program.mk = _
  rw [blocks.decode_encode]
  rfl

/-! ## Settings, traces and verdicts -/

theorem StarThresholds.keeps (s : StarThresholds) : StarThresholds.codec.Keeps (room + 1) s := by
  have word (n : UInt32) : Codec.word.Keeps room n := Codec.keeps_word n
  refine Fits.keeps (f := form) ?_ rfl (.inl rfl) (by decide) (.refl _) ?_
  · exact (((Fits.withDefault rfl (word s.three).decode_encode).map StarThresholds.mk).seq
      (.withDefault rfl (word s.two).decode_encode)).seq
      (.withDefault rfl (word s.one).decode_encode)
  · simp only [List.forall_mem_cons]
    exact ⟨(word s.three).writable, (word s.two).writable, (word s.one).writable,
      List.forall_mem_nil _⟩

theorem RunConfig.keeps (c : RunConfig) : RunConfig.codec.Keeps (room + 2) c := by
  have limit : Codec.word.Keeps (room + 1) c.maxSteps := Codec.keeps_word c.maxSteps
  have stars : StarThresholds.codec.Keeps (room + 1) c.stars := c.stars.keeps
  have recorded : Codec.bool.Keeps (room + 1) c.recordTrace := Codec.keeps_bool c.recordTrace
  refine Fits.keeps (f := form) ?_ rfl (.inl rfl) (by decide) (.refl _) ?_
  · exact (((Fits.withDefault rfl limit.decode_encode).map RunConfig.mk).seq
      (.withDefault rfl stars.decode_encode)).seq (.withDefault rfl recorded.decode_encode)
  · simp only [List.forall_mem_cons]
    exact ⟨limit.writable, stars.writable, recorded.writable, List.forall_mem_nil _⟩

theorem Outcome.keeps (o : Outcome) : Outcome.codec.Keeps room o := by
  apply Codec.keeps_choice
  · cases o <;> decide
  · cases o <;> decide

theorem TraceEntry.keeps {e : TraceEntry} (h : e.Sized) :
    TraceEntry.codec.Keeps (room + 2) e := by
  obtain ⟨small, before, after⟩ := h
  have index : Codec.index.Keeps (room + 1) e.blockIndex := Codec.keeps_natural small (by decide)
  have text (s : String) : Codec.text.Keeps (room + 1) s := Codec.keeps_text s
  have kind : BlockKind.codec.Keeps (room + 1) e.blockKind := e.blockKind.keeps
  have before : Robot.codec.Keeps (room + 1) e.before := Robot.keeps before
  have after : Robot.codec.Keeps (room + 1) e.after := Robot.keeps after
  have success : Codec.bool.Keeps (room + 1) e.success := Codec.keeps_bool e.success
  refine Fits.keeps (f := form) ?_ rfl (.inl rfl) (by decide) (keys_optional e.errorMessage) ?_
  · exact ((((((((Fits.required rfl index.decode_encode).map TraceEntry.mk).seq
      (.required rfl (text e.blockId).decode_encode)).seq (.required rfl kind.decode_encode)).seq
      (.required rfl before.decode_encode)).seq (.required rfl after.decode_encode)).seq
      (.required rfl (text e.action).decode_encode)).seq
      (.required rfl success.decode_encode)).seq
      (.optional (valueOf?_optional (by simp) e.errorMessage)
        fun message _ => ⟨(text message).decode_encode, nofun⟩)
  · apply writable_optional
    · simp only [List.forall_mem_cons]
      exact ⟨index.writable, (text e.blockId).writable, kind.writable, before.writable,
        after.writable, (text e.action).writable, success.writable, List.forall_mem_nil _⟩
    · exact fun message _ => (text message).writable

theorem Verdict.keeps {v : Verdict} (h : v.Sized) : Verdict.codec.Keeps (room + 4) v := by
  obtain ⟨robot, small, entries⟩ := h
  have outcome : Outcome.codec.Keeps (room + 3) v.outcome := v.outcome.keeps
  have success : Codec.bool.Keeps (room + 3) v.success := Codec.keeps_bool v.success
  have message : Codec.text.Keeps (room + 3) v.message := Codec.keeps_text v.message
  have robot : Robot.codec.Keeps (room + 3) v.finalRobot := Robot.keeps robot
  have steps : Codec.stepCount.Keeps (room + 3) v.steps := Codec.keeps_natural small (by decide)
  have stars : Codec.smallWord.Keeps (room + 3) v.stars := Codec.keeps_smallWord v.stars
  have trace : ∀ entries ∈ v.trace, TraceEntry.codec.listOf.Keeps (room + 3) entries :=
    fun list there => Codec.keeps_listOf fun e mem => TraceEntry.keeps (entries list there e mem)
  refine Fits.keeps (f := form) ?_ rfl (.inl rfl) (by decide) (keys_optional v.trace) ?_
  · exact (((((((Fits.required rfl outcome.decode_encode).map Verdict.mk).seq
      (.required rfl success.decode_encode)).seq (.required rfl message.decode_encode)).seq
      (.required rfl robot.decode_encode)).seq (.required rfl steps.decode_encode)).seq
      (.required rfl stars.decode_encode)).seq
      (.optional (valueOf?_optional (by simp) v.trace)
        fun list there => ⟨(trace list there).decode_encode, nofun⟩)
  · apply writable_optional
    · simp only [List.forall_mem_cons]
      exact ⟨outcome.writable, success.writable, message.writable, robot.writable,
        steps.writable, stars.writable, List.forall_mem_nil _⟩
    · exact fun list there => (trace list there).writable

theorem RunSummary.keeps {s : RunSummary} (h : s.Sized) :
    RunSummary.codec.Keeps (room + 1) s := by
  have success : Codec.bool.Keeps room s.success := Codec.keeps_bool s.success
  have stars : Codec.smallWord.Keeps room s.stars := Codec.keeps_smallWord s.stars
  have count : Codec.index.Keeps room s.blockCount := Codec.keeps_natural h (by decide)
  have loop : Codec.bool.Keeps room s.usedLoop := Codec.keeps_bool s.usedLoop
  refine Fits.keeps (f := form) ?_ rfl (.inl rfl) (by decide) (.refl _) ?_
  · exact ((((Fits.required rfl success.decode_encode).map RunSummary.mk).seq
      (.required rfl stars.decode_encode)).seq (.required rfl count.decode_encode)).seq
      (.required rfl loop.decode_encode)
  · simp only [List.forall_mem_cons]
    exact ⟨success.writable, stars.writable, count.writable, loop.writable,
      List.forall_mem_nil _⟩

/-! ## All documents -/

/-- **Every value is read back from its document**, if its numbers have the sizes of documents. -/
theorem documents_round_trip :
    (∀ m : Maze, m.Sized → Maze.codec.RoundTrips m) ∧
    (∀ r : Robot, r.Sized → Robot.codec.RoundTrips r) ∧
    (∀ h : Heading, Heading.codec.RoundTrips h) ∧
    (∀ b : Block, Block.codec.RoundTrips b) ∧
    (∀ p : Program, Program.codec.RoundTrips p) ∧
    (∀ s : StarThresholds, StarThresholds.codec.RoundTrips s) ∧
    (∀ c : RunConfig, RunConfig.codec.RoundTrips c) ∧
    (∀ o : Outcome, Outcome.codec.RoundTrips o) ∧
    (∀ e : TraceEntry, e.Sized → TraceEntry.codec.RoundTrips e) ∧
    (∀ v : Verdict, v.Sized → Verdict.codec.RoundTrips v) ∧
    (∀ s : RunSummary, s.Sized → RunSummary.codec.RoundTrips s) ∧
    (∀ w : Wall, w.Sized → Wall.codec.RoundTrips w) := by
  refine ⟨?_, ?_, ?_, ?_, ?_, ?_, ?_, ?_, ?_, ?_, ?_, ?_⟩
  · exact fun m h => (Maze.keeps h).roundTrips
  · exact fun r h => (Robot.keeps h).roundTrips
  · exact fun h => h.keeps.roundTrips
  · exact fun b => b.keeps.roundTrips
  · exact fun p => p.keeps.roundTrips
  · exact fun s => s.keeps.roundTrips
  · exact fun c => c.keeps.roundTrips
  · exact fun o => o.keeps.roundTrips
  · exact fun e h => (TraceEntry.keeps h).roundTrips
  · exact fun v h => (Verdict.keeps h).roundTrips
  · exact fun s h => (RunSummary.keeps h).roundTrips
  · exact fun w h => (Wall.keeps h).roundTrips

/-- A corridor is read back with its walls, and a verdict with no trace, with an empty one and with
one that holds a move done and a move blocked. -/
theorem documents_round_trip_corridor :
    let m : Maze := .close ⟨2, 1⟩ .origin ⟨1, 0⟩ [] (by decide) (by decide) (by decide) (by decide)
    let b : Block := ⟨"b", .forward, none⟩
    let r : Robot := ⟨⟨1, 0⟩, .right⟩
    let trace := [.done 0 b ⟨.origin, .right⟩ r, .blocked 1 b r]
    let verdict (trace : Option (List TraceEntry)) : Verdict :=
      ⟨.wallCollision, false, "Hit a wall!", r, 2, 0, trace⟩
    Maze.codec.RoundTrips m ∧ Robot.codec.RoundTrips r ∧ Block.codec.RoundTrips b ∧
      Block.codec.RoundTrips { b with repeatCount := some 3 } ∧
      (∀ e ∈ trace, TraceEntry.codec.RoundTrips e) ∧
      Verdict.codec.RoundTrips (verdict none) ∧ Verdict.codec.RoundTrips (verdict (some [])) ∧
      Verdict.codec.RoundTrips (verdict (some trace)) ∧
      RunSummary.codec.RoundTrips ⟨true, 3, 2, false⟩ ∧
      Wall.codec.RoundTrips (.vertical 2 0) := by
  intro m b r trace verdict
  obtain ⟨mazes, robots, -, blocks, -, -, -, -, entries, verdicts, summaries, walls⟩ :=
    documents_round_trip
  have listed : ∀ e ∈ trace, e.Sized := by decide
  exact ⟨mazes m (by decide), robots r (by decide), blocks b, blocks _,
    fun e mem => entries e (listed e mem), verdicts _ (by decide), verdicts _ (by decide),
    verdicts _ (by decide), summaries _ (by decide), walls _ (by decide)⟩

end Labyrinth
