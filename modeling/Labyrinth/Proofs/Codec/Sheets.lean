import Labyrinth.Codec.Sheet
import Labyrinth.Proofs.Codec.Accepted
import Labyrinth.Proofs.Codec.RoundTrip
import Mathlib.Data.List.Nodup

/-!
# Mazes are read by the walls that are denoted

**Theorem (`MazeSheet.decode_by_walls`).** The maze that is read from a text depends on the walls
that the names in it denote, apart from those of the outer edge, and on nothing else about the
list. So does the error, if there is one: where a wall is at fault, the least that does not fit is
named. A maze that was read is written with all of its walls in their own order, each once.

A document is read as a maze in two steps: as a sheet, whose walls are texts, and then with the
texts read as walls (`MazeSheet.decode_record_eq_ok_iff`). From there only the set of walls counts:
it is built in its own order, in which the first wall that does not fit is the least
(`Maze.fault_wall_iff`), and walls of the outer edge are no misfits
(`Maze.build_eq_of_same_inside`).
-/

namespace Labyrinth

variable {α β γ : Type}

/-! ## Names read as walls -/

theorem Wall.decode_eq_ok_iff {j : Json} {w : Wall} :
    Wall.codec.decode j = .ok w ↔
      ∃ name, Codec.text.decode j = .ok name ∧ Wall.parse name = .ok w := by
  cases j with
  | text s =>
    show (Wall.parse s).mapError DecodeError.refused = .ok w ↔ _
    cases read : Wall.parse s <;> simp [Codec.text, Except.mapError, read]
  | _ => simp [Wall.codec, Codec.text]

theorem forall₂_through {R : α → γ → Prop} {S : α → β → Prop} {T : β → γ → Prop}
    (through : ∀ a c, R a c ↔ ∃ b, S a b ∧ T b c) {as : List α} {cs : List γ} :
    List.Forall₂ R as cs ↔ ∃ bs, List.Forall₂ S as bs ∧ List.Forall₂ T bs cs := by
  constructor
  · intro related
    induction related with
    | nil => exact ⟨[], .nil, .nil⟩
    | cons first _ ih =>
      obtain ⟨b, left, right⟩ := (through _ _).1 first
      obtain ⟨bs, lefts, rights⟩ := ih
      exact ⟨b :: bs, .cons left lefts, .cons right rights⟩
  · rintro ⟨bs, lefts, rights⟩
    induction lefts generalizing cs with
    | nil =>
      cases rights
      exact .nil
    | cons left _ ih =>
      cases rights with
      | cons right rights => exact .cons ((through _ _).2 ⟨_, left, right⟩) (ih rights)

theorem Wall.decode_listOf_eq_ok_iff {j : Json} {walls : List Wall} :
    Wall.codec.listOf.decode j = .ok walls ↔ ∃ names, Codec.text.listOf.decode j = .ok names ∧
      List.Forall₂ (fun name w => Wall.parse name = .ok w) names walls := by
  have named := @forall₂_through _ _ _ _ _ _ fun j w => Wall.decode_eq_ok_iff (j := j) (w := w)
  simp only [Codec.decode_listOf_eq_ok_iff, named]
  constructor
  · rintro ⟨items, rfl, names, texts, denoted⟩
    exact ⟨names, ⟨items, rfl, texts⟩, denoted⟩
  · rintro ⟨names, ⟨items, rfl, texts⟩, denoted⟩
    exact ⟨items, rfl, names, texts, denoted⟩

/-! ## The walls of a document, read in two ways -/

namespace Form

variable {δ : Type} {make : Int → Int → Cell → Cell → β → α} {decode : Decoder β}
  {ms : Json.Members} {j : Json} {a : α}

/-- A record with the fields of a maze, its walls read in some way. -/
def mazeLike (make : Int → Int → Cell → Cell → β → α) (decode : Decoder β) : Form α :=
  make <$> .required "width" Codec.coordinate.decode <*>
    .required "height" Codec.coordinate.decode <*> .required "start" Cell.codec.decode <*>
    .required "goal" Cell.codec.decode <*> .required "walls" decode

/-- The fields of a maze other than its walls. -/
def headFields : List (String × Decoder Unit) :=
  [("width", fun j => discard (Codec.coordinate.decode j)),
    ("height", fun j => discard (Codec.coordinate.decode j)),
    ("start", fun j => discard (Cell.codec.decode j)),
    ("goal", fun j => discard (Cell.codec.decode j))]

/-- The members hold the extent and the marked cells of a maze. -/
structure Heads (ms : Json.Members) (width height : Int) (start goal : Cell) : Prop where
  width : Holds ms "width" Codec.coordinate.decode width
  height : Holds ms "height" Codec.coordinate.decode height
  start : Holds ms "start" Cell.codec.decode start
  goal : Holds ms "goal" Cell.codec.decode goal

theorem fields_mazeLike : (mazeLike make decode).fields =
    headFields ++ [("walls", fun j => discard (decode j))] := rfl

theorem build_mazeLike_eq_ok_iff : (mazeLike make decode).build ms = .ok a ↔
    ∃ width height start goal b, Heads ms width height start goal ∧ Holds ms "walls" decode b ∧
      make width height start goal b = a := by
  simp only [mazeLike, build_seq_eq_ok_iff, build_map_eq_ok_iff, build_required_eq_ok_iff]
  constructor
  · rintro ⟨_, ⟨_, ⟨_, ⟨_, ⟨width, hw, rfl⟩, height, hh, rfl⟩, start, hs, rfl⟩, goal, hg, rfl⟩,
      b, walls, rfl⟩
    exact ⟨width, height, start, goal, b, ⟨hw, hh, hs, hg⟩, walls, rfl⟩
  · rintro ⟨width, height, start, goal, b, ⟨hw, hh, hs, hg⟩, walls, rfl⟩
    exact ⟨_, ⟨_, ⟨_, ⟨_, ⟨width, hw, rfl⟩, height, hh, rfl⟩, start, hs, rfl⟩, goal, hg, rfl⟩,
      b, walls, rfl⟩

/-- A document that is read as a record is read too with its walls read otherwise, if they can be
read so. -/
theorem decode_mazeLike (read : (mazeLike make decode).decode j = .ok a) :
    ∃ width height start goal k b, decode k = .ok b ∧ make width height start goal b = a ∧
      ∀ (make' : Int → Int → Cell → Cell → γ → δ) (decode' : Decoder γ) (c : γ),
        decode' k = .ok c →
          (mazeLike make' decode').decode j = .ok (make' width height start goal c) := by
  obtain ⟨ms, found, read⟩ := decode_eq_ok_iff.1 read
  obtain ⟨checked, built⟩ := ofMembers_eq_ok_iff.1 read
  obtain ⟨width, height, start, goal, b, heads, ⟨k, stands, walls⟩, rfl⟩ :=
    build_mazeLike_eq_ok_iff.1 built
  refine ⟨width, height, start, goal, k, b, walls, rfl, fun make' decode' c walls' => ?_⟩
  refine decode_eq_ok_iff.2 ⟨ms, found, ofMembers_eq_ok_iff.2 ⟨?_, ?_⟩⟩
  · rw [fields_mazeLike] at checked ⊢
    refine check_append_field (fun _ l stands' => ?_) checked
    obtain rfl := Option.some.inj (stands.symm.trans stands')
    rw [walls']
    rfl
  · exact build_mazeLike_eq_ok_iff.2
      ⟨width, height, start, goal, c, heads, ⟨k, stands, walls'⟩, rfl⟩

end Form

namespace MazeSheet

open Form

variable {s s' : MazeSheet} {walls walls' : List Wall} {j : Json}

theorem form_eq : form = mazeLike MazeSheet.mk Codec.text.listOf.decode := rfl

theorem recordForm_eq : MazeRecord.form = mazeLike MazeRecord.mk Wall.codec.listOf.decode := rfl

/-- The record that a sheet makes with some walls. -/
def record (s : MazeSheet) (walls : List Wall) : MazeRecord :=
  ⟨s.width, s.height, s.start, s.goal, walls⟩

/-- The document of a maze is a sheet with names that denote walls. -/
theorem decode_record_eq_ok_iff {r : MazeRecord} : MazeRecord.form.decode j = .ok r ↔
    ∃ s walls, form.decode j = .ok s ∧ s.Denotes walls ∧ s.record walls = r := by
  constructor
  · intro read
    rw [recordForm_eq] at read
    obtain ⟨width, height, start, goal, k, walls, listed, rfl, otherwise⟩ := decode_mazeLike read
    obtain ⟨names, texts, denoted⟩ := Wall.decode_listOf_eq_ok_iff.1 listed
    exact ⟨⟨width, height, start, goal, names⟩, walls, otherwise MazeSheet.mk _ names texts,
      denoted, rfl⟩
  · rintro ⟨s, walls, read, denoted, rfl⟩
    rw [form_eq] at read
    obtain ⟨width, height, start, goal, k, names, texts, rfl, otherwise⟩ := decode_mazeLike read
    exact otherwise MazeRecord.mk _ _ (Wall.decode_listOf_eq_ok_iff.2 ⟨names, texts, denoted⟩)

end MazeSheet

/-! ## Walls in their own order -/

theorem WallSet.mem_toList_ofList {walls : List Wall} {w : Wall} :
    w ∈ (ofList walls).toList ↔ w ∈ walls := mem_ofList

namespace Maze

variable {g : Grid} {start goal : Cell} {walls walls' : List Wall} {w : Wall}

/-- The least wall listed that cannot exist on the grid. -/
structure LeastMisfit (g : Grid) (walls : List Wall) (w : Wall) : Prop where
  listed : w ∈ walls
  unfit : ¬ w.Fits g
  least : ∀ v ∈ walls, ¬ v.Fits g → v = w ∨ w.Precedes v

/-- Of walls in their own order, the first that does not fit is the least. -/
theorem fault_wall_iff :
    Fault g start goal (WallSet.ofList walls).toList (.wallOutOfRange w) ↔
      g.Proper ∧ g.Contains start ∧ g.Contains goal ∧ LeastMisfit g walls w := by
  have sorted := (WallSet.ofList walls).sorted
  have listed (v : Wall) : v ∈ (WallSet.ofList walls).toList ↔ v ∈ walls :=
    WallSet.mem_toList_ofList
  constructor
  · intro fault
    cases fault with
    | @ofWall before after _ proper start_mem goal_mem split fit unfit =>
      rw [split] at sorted listed
      refine ⟨proper, start_mem, goal_mem, (listed w).1 (by simp), unfit, fun v mem misfit => ?_⟩
      rcases List.mem_append.1 ((listed v).2 mem) with earlier | later
      · exact absurd (fit v earlier) misfit
      · rcases List.mem_cons.1 later with same | later
        · exact .inl same
        · have behind := (List.pairwise_append.1 sorted).2.1
          exact .inr ((List.pairwise_cons.1 behind).1 v later)
  · rintro ⟨proper, start_mem, goal_mem, misfit⟩
    obtain ⟨before, after, split⟩ := List.append_of_mem ((listed w).2 misfit.listed)
    refine .ofWall proper start_mem goal_mem split (fun v earlier => ?_) misfit.unfit
    by_contra unfit
    rw [split] at sorted listed
    have precedes : v.Precedes w :=
      (List.pairwise_append.1 sorted).2.2 v earlier w List.mem_cons_self
    rcases misfit.least v ((listed v).1 (List.mem_append_left _ earlier)) unfit with rfl | after
    · exact Wall.precedes_irrefl v precedes
    · exact Wall.precedes_asymm precedes after

/-- Walls of the outer edge fit, so they do not matter for what does not fit. -/
theorem LeastMisfit.of_same_inside (proper : g.Proper)
    (same : ∀ w, w ∉ g.boundaryWalls → (w ∈ walls' ↔ w ∈ walls))
    (h : LeastMisfit g walls w) : LeastMisfit g walls' w := by
  have inside {v : Wall} (unfit : ¬ v.Fits g) : v ∈ walls' ↔ v ∈ walls :=
    same v fun edge => unfit ((Grid.mem_boundaryWalls proper).1 edge).1
  exact ⟨(inside h.unfit).2 h.listed, h.unfit,
    fun v mem unfit => h.least v ((inside unfit).1 mem) unfit⟩

/-- **Walls in their own order build the same, up to those of the outer edge.** -/
theorem build_eq_of_same_inside
    (same : ∀ w, w ∉ g.boundaryWalls → (w ∈ walls' ↔ w ∈ walls)) :
    build g start goal (WallSet.ofList walls').toList =
      build g start goal (WallSet.ofList walls).toList := by
  rcases inOrder_or_fault g start goal (WallSet.ofList walls).toList with h | ⟨e, fault⟩
  · have h' : InOrder g start goal (WallSet.ofList walls').toList := by
      refine { h with walls_fit := fun w mem => ?_ }
      rw [WallSet.mem_toList_ofList] at mem
      by_cases edge : w ∈ g.boundaryWalls
      · exact ((Grid.mem_boundaryWalls h.proper).1 edge).1
      · apply h.walls_fit
        rw [WallSet.mem_toList_ofList]
        exact (same w edge).1 mem
    rw [build_of_inOrder h, build_of_inOrder h', Except.ok.injEq]
    refine eq_of_mem_walls rfl rfl rfl fun w => ?_
    simp only [mem_walls_close, WallSet.mem_toList_ofList]
    by_cases edge : w ∈ g.boundaryWalls
    · simp only [edge, or_true]
    · rw [same w edge]
  · rw [build_of_fault fault, build_eq_error_iff]
    cases fault with
    | ofGrid improper => exact .ofGrid improper
    | ofStart proper off => exact .ofStart proper off
    | ofGoal proper start_mem off => exact .ofGoal proper start_mem off
    | ofWall proper start_mem goal_mem split fit unfit =>
      obtain ⟨-, -, -, misfit⟩ := fault_wall_iff.1
        (.ofWall proper start_mem goal_mem split fit unfit)
      exact fault_wall_iff.2 ⟨proper, start_mem, goal_mem, misfit.of_same_inside proper same⟩

end Maze

/-! ## Texts -/

namespace MazeSheet

open Form

variable {t : String} {s : MazeSheet} {walls : List Wall} {j : Json} {m : Maze}

theorem Describes.decodeText (h : Describes t s walls) :
    Maze.codec.decodeText t =
      (Maze.build s.grid s.start s.goal (WallSet.ofList walls).toList).mapError .refused := by
  obtain ⟨read, whole⟩ := Codec.decodeText_eq_ok_iff.1 h.holds
  have record := decode_record_eq_ok_iff.2 ⟨s, walls, read, h.denotes, rfl⟩
  have decoded : Maze.codec.decode (Json.read t).document =
      (Maze.build s.grid s.start s.goal (WallSet.ofList walls).toList).mapError .refused := by
    show (do
      let r ← MazeRecord.form.decode (Json.read t).document
      r.toMaze.mapError DecodeError.refused) = _
    rw [record]
    rfl
  rw [Codec.decodeText, decoded]
  cases Maze.build s.grid s.start s.goal (WallSet.ofList walls).toList with
  | error e => rfl
  | ok m =>
    show (if (Json.read t).isWhole = true then _ else _) = _
    rw [if_pos whole]
    rfl

theorem exists_describes (read : Maze.codec.decodeText t = .ok m) :
    ∃ s walls, Describes t s walls := by
  obtain ⟨decoded, whole⟩ := Codec.decodeText_eq_ok_iff.1 read
  obtain ⟨r, record, -⟩ := bind_eq_ok_iff.1 decoded
  obtain ⟨s, walls, sheet, denotes, -⟩ := decode_record_eq_ok_iff.1 record
  exact ⟨s, walls, Codec.decodeText_eq_ok_iff.2 ⟨sheet, whole⟩, denotes⟩

theorem Describes.decodeText_eq_ok_iff (h : Describes t s walls) :
    Maze.codec.decodeText t = .ok m ↔
      m.toGrid = s.grid ∧ m.start = s.start ∧ m.goal = s.goal ∧
        ∀ w, w ∈ m.walls ↔ w ∈ walls ∨ w ∈ s.grid.boundaryWalls := by
  have built : Maze.codec.decodeText t = .ok m ↔
      Maze.build s.grid s.start s.goal (WallSet.ofList walls).toList = .ok m := by
    rw [h.decodeText]
    cases Maze.build s.grid s.start s.goal (WallSet.ofList walls).toList <;> simp [Except.mapError]
  rw [built, Maze.build_eq_ok_iff]
  constructor
  · rintro ⟨inOrder, rfl⟩
    refine ⟨rfl, rfl, rfl, fun w => ?_⟩
    rw [Maze.mem_walls_close, WallSet.mem_toList_ofList]
  · rintro ⟨grid, start, goal, all⟩
    have inOrder : Maze.InOrder s.grid s.start s.goal (WallSet.ofList walls).toList := by
      refine ⟨grid ▸ m.proper, ?_, ?_, fun w mem => ?_⟩
      · rw [← grid, ← start]
        exact m.start_mem
      · rw [← grid, ← goal]
        exact m.goal_mem
      · rw [← grid]
        exact m.walls_fit w ((all w).2 (.inl (WallSet.mem_toList_ofList.1 mem)))
    refine ⟨inOrder, Maze.eq_of_mem_walls grid start goal fun w => ?_⟩
    rw [all, Maze.mem_walls_close, WallSet.mem_toList_ofList]

theorem Describes.decodeText_eq_error_iff (h : Describes t s walls) {e : DecodeError} :
    Maze.codec.decodeText t = .error e ↔
      ∃ f, e = .refused f ∧
        Maze.Fault s.grid s.start s.goal (WallSet.ofList walls).toList f := by
  simp only [h.decodeText, ← Maze.build_eq_error_iff]
  cases Maze.build s.grid s.start s.goal (WallSet.ofList walls).toList with
  | error f => simp [Except.mapError, eq_comm]
  | ok m => simp [Except.mapError]

/-! ## Written mazes -/

theorem sized_of_coordinate {n : Int} (read : Codec.coordinate.decode j = .ok n) : Sized n := by
  cases j with
  | int k =>
    change (if _ then _ else _) = _ at read
    split at read
    · next within => exact Except.ok.inj read ▸ within
    · cases read
  | _ => cases read

theorem sized_of_decode (read : form.decode j = .ok s) : Sized s.width ∧ Sized s.height := by
  obtain ⟨ms, -, read⟩ := decode_eq_ok_iff.1 read
  obtain ⟨width, height, start, goal, names, heads, -, rfl⟩ :=
    build_mazeLike_eq_ok_iff.1 (ofMembers_eq_ok_iff.1 read).2
  obtain ⟨_, _, readWidth⟩ := heads.width
  obtain ⟨_, _, readHeight⟩ := heads.height
  exact ⟨sized_of_coordinate readWidth, sized_of_coordinate readHeight⟩

theorem sized_of_decodeText (read : Maze.codec.decodeText t = .ok m) : m.Sized := by
  obtain ⟨s, walls, describes⟩ := exists_describes read
  obtain ⟨grid, -⟩ := describes.decodeText_eq_ok_iff.1 read
  have sized := sized_of_decode (Codec.decodeText_eq_ok_iff.1 describes.holds).1
  rw [Maze.Sized, grid]
  exact sized

theorem encode_sheet (m : Maze) : codec.encode m.sheet = Maze.codec.encode m := by
  have names : Codec.text.listOf.encode m.sheet.names = Wall.codec.listOf.encode m.walls.toList :=
    congrArg Json.list (List.map_map ..)
  show Json.record [_, _, _, _, ("walls", Codec.text.listOf.encode m.sheet.names)] = _
  rw [names]
  rfl

/-- The numbers on a sheet are sized. -/
structure Sized (s : MazeSheet) : Prop where
  width : Labyrinth.Sized s.width
  height : Labyrinth.Sized s.height
  start : s.start.Sized
  goal : s.goal.Sized

theorem keeps {room : Nat} (h : s.Sized) : codec.Keeps (room + 2) s := by
  have width : Codec.coordinate.Keeps (room + 1) s.width := h.width.keeps
  have height : Codec.coordinate.Keeps (room + 1) s.height := h.height.keeps
  have start : Cell.codec.Keeps (room + 1) s.start := Cell.keeps h.start
  have goal : Cell.codec.Keeps (room + 1) s.goal := Cell.keeps h.goal
  have names : Codec.text.listOf.Keeps (room + 1) s.names :=
    Codec.keeps_listOf fun name _ => Codec.keeps_text name
  refine Fits.keeps (f := form) ?_ rfl (.inl rfl) (by decide) (.refl _) ?_
  · exact (((((Fits.required rfl width.decode_encode).map MazeSheet.mk).seq
      (.required rfl height.decode_encode)).seq (.required rfl start.decode_encode)).seq
      (.required rfl goal.decode_encode)).seq (.required rfl names.decode_encode)
  · simp only [List.forall_mem_cons]
    exact ⟨width.writable, height.writable, start.writable, goal.writable, names.writable,
      List.forall_mem_nil _⟩

theorem describes_write (h : s.Sized) (denotes : s.Denotes walls) :
    Describes (codec.encode s).write s walls :=
  ⟨(keeps h).decodeText_write, denotes⟩

theorem sized_sheet (h : m.Sized) : m.sheet.Sized :=
  ⟨h.1, h.2, h.cell m.start_mem, h.cell m.goal_mem⟩

theorem parse_name_of_mem (h : m.Sized) {w : Wall} (mem : w ∈ m.walls) :
    Wall.parse w.name = .ok w := by
  have kept : Wall.codec.Keeps 0 w := Wall.keeps (h.wall (m.walls_fit w mem))
  obtain ⟨name, text, parsed⟩ := Wall.decode_eq_ok_iff.1 kept.decode_encode
  obtain rfl : w.name = name := Except.ok.inj text
  exact parsed

theorem describes_encode (h : m.Sized) :
    Describes (Maze.codec.encode m).write m.sheet m.walls.toList := by
  rw [← encode_sheet]
  apply describes_write (sized_sheet h)
  rw [Denotes, Maze.sheet, List.forall₂_map_left_iff, List.forall₂_same]
  exact fun w mem => parse_name_of_mem h mem

theorem nodup_names (h : m.Sized) : m.sheet.names.Nodup := by
  refine List.Nodup.map_on (fun v memV w memW same => ?_) m.walls.nodup_toList
  have parsed := parse_name_of_mem h memV
  rw [same, parse_name_of_mem h memW] at parsed
  exact (Except.ok.inj parsed).symm

/-- **A maze is read by the walls that its document denotes**, in whatever order, how often and by
which names they are listed, and whether or not those of the outer edge are among them. It is
written with all of its walls in their own order, each once. -/
theorem decode_by_walls :
    (∀ (t t' : String) (s s' : MazeSheet) (walls walls' : List Wall),
      Describes t s walls → Describes t' s' walls' →
      s'.width = s.width → s'.height = s.height → s'.start = s.start → s'.goal = s.goal →
      (∀ w, w ∉ s.grid.boundaryWalls → (w ∈ walls' ↔ w ∈ walls)) →
      Maze.codec.decodeText t' = Maze.codec.decodeText t) ∧
    (∀ (t : String) (s : MazeSheet) (walls : List Wall), Describes t s walls →
      (∀ m, Maze.codec.decodeText t = .ok m ↔
        m.toGrid = s.grid ∧ m.start = s.start ∧ m.goal = s.goal ∧
          ∀ w, w ∈ m.walls ↔ w ∈ walls ∨ w ∈ s.grid.boundaryWalls) ∧
      (∀ e, Maze.codec.decodeText t = .error e ↔
        ∃ f, e = .refused f ∧
          Maze.Fault s.grid s.start s.goal (WallSet.ofList walls).toList f) ∧
      ∀ w, Maze.codec.decodeText t = .error (.refused (.wallOutOfRange w)) ↔
        s.grid.Proper ∧ s.grid.Contains s.start ∧ s.grid.Contains s.goal ∧
          Maze.LeastMisfit s.grid walls w) ∧
    ∀ (t : String) (m : Maze), Maze.codec.decodeText t = .ok m →
      (∃ s walls, Describes t s walls) ∧
        Maze.codec.encode m = codec.encode m.sheet ∧
        Describes (Maze.codec.encode m).write m.sheet m.walls.toList ∧
        m.walls.toList.Pairwise Wall.Precedes ∧ m.sheet.names.Nodup ∧
        ∀ w ∈ m.boundaryWalls, w.name ∈ m.sheet.names := by
  refine ⟨?_, fun t s walls h => ⟨fun m => h.decodeText_eq_ok_iff,
    fun e => h.decodeText_eq_error_iff, fun w => ?_⟩, fun t m read => ?_⟩
  · intro t t' s s' walls walls' h h' width height start goal same
    have grid : s'.grid = s.grid := congrArg₂ Grid.mk width height
    rw [h.decodeText, h'.decodeText, grid, start, goal, Maze.build_eq_of_same_inside same]
  · rw [h.decodeText_eq_error_iff, ← Maze.fault_wall_iff]
    constructor
    · rintro ⟨f, same, fault⟩
      rwa [DecodeError.refused.inj same]
    · exact fun fault => ⟨_, rfl, fault⟩
  · have sized := sized_of_decodeText read
    exact ⟨exists_describes read, (encode_sheet m).symm, describes_encode sized, m.walls.sorted,
      nodup_names sized, fun w edge => List.mem_map_of_mem (m.boundary_mem w edge)⟩

/-- A wall in two spellings and a wall of the outer edge, against the same wall alone; and two walls
that do not fit, of which the one listed last is named. -/
theorem decode_by_walls_corridor :
    let s (names : List String) : MazeSheet := ⟨2, 1, .origin, ⟨1, 0⟩, names⟩
    let t (names : List String) : String := (codec.encode (s names)).write
    let names := ["wall-v-+1-00", "wall-h-0-0", "wall-v-1-0"]
    let walls : List Wall := [.vertical 1 0, .horizontal 0 0, .vertical 1 0]
    let astray := ["wall-v-7-0", "wall-h-2-0"]
    Describes (t names) (s names) walls ∧
      Describes (t ["wall-v-1-0"]) (s ["wall-v-1-0"]) [.vertical 1 0] ∧
      Maze.codec.decodeText (t names) = Maze.codec.decodeText (t ["wall-v-1-0"]) ∧
      (∃ m, Maze.codec.decodeText (t names) = .ok m ∧ m.sheet.names =
        ["wall-h-0-0", "wall-h-0-1", "wall-h-1-0", "wall-h-1-1", "wall-v-0-0", "wall-v-1-0",
          "wall-v-2-0"]) ∧
      Maze.codec.decodeText (t astray) = .error (.refused (.wallOutOfRange (.horizontal 2 0))) := by
  intro s t names walls astray
  have two : Labyrinth.Sized 2 := by decide
  have one : Labyrinth.Sized 1 := by decide
  have describes {names : List String} {walls : List Wall} (denotes : (s names).Denotes walls) :
      Describes (t names) (s names) walls :=
    describes_write ⟨two, one, (by decide : Cell.origin.Sized), (by decide : Cell.Sized ⟨1, 0⟩)⟩
      denotes
  have several : Describes (t names) (s names) walls :=
    describes (.cons rfl (.cons rfl (.cons rfl .nil)))
  have single : Describes (t ["wall-v-1-0"]) (s ["wall-v-1-0"]) [.vertical 1 0] :=
    describes (.cons rfl .nil)
  have misfits : Describes (t astray) (s astray) [.vertical 7 0, .horizontal 2 0] :=
    describes (.cons rfl (.cons rfl .nil))
  obtain ⟨alike, decodes, -⟩ := decode_by_walls
  have same : Maze.codec.decodeText (t names) = Maze.codec.decodeText (t ["wall-v-1-0"]) := by
    refine alike _ _ _ _ _ _ single several rfl rfl rfl rfl fun w inside => ?_
    have inside : w ≠ .horizontal 0 0 := by
      rintro rfl
      exact inside (by decide)
    simp [walls, inside]
  refine ⟨several, single, same, ?_, ?_⟩
  · let m : Maze := .close ⟨2, 1⟩ .origin ⟨1, 0⟩ [.vertical 1 0] (by decide) (by decide) (by decide)
      (by decide)
    refine ⟨m, ?_, by decide⟩
    rw [same]
    exact ((decodes _ _ _ single).1 m).2 ⟨rfl, rfl, rfl, fun w => Maze.mem_walls_close⟩
  · exact ((decodes _ _ _ misfits).2.2 _).2
      ⟨by decide, by decide, by decide, by decide, by decide, by decide⟩

end MazeSheet

end Labyrinth
