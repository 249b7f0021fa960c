import Labyrinth.Codec.Record
import Mathlib.Data.List.Forall2

/-!
# What codecs and forms accept

Reading told backwards: if a document is read as a value, then its parts are read as the parts of
the value.

**Codecs.** A text is read if its document is and nothing follows (`Codec.decodeText_eq_ok_iff`), a
list if its items are (`Codec.decode_listOf_eq_ok_iff`).

**Forms.** A record is read if its members are accepted and hold the values of its fields
(`Form.decode_eq_ok_iff`, `Form.ofMembers_eq_ok_iff`). What is accepted with one field read in some
way is accepted with that field read otherwise, as long as the value of the field is
(`Form.check_append_field`).
-/

namespace Labyrinth

variable {α β : Type}

/-- A reading in two parts goes well if both do. -/
theorem bind_eq_ok_iff {x : Except DecodeError α} {f : α → Except DecodeError β} {b : β} :
    (x >>= f) = .ok b ↔ ∃ a, x = .ok a ∧ f a = .ok b := by
  cases x with
  | error e => simp [bind, Except.bind]
  | ok a => simp [bind, Except.bind]

theorem checked_bind_eq_ok_iff {x : Except DecodeError Unit} {y : Except DecodeError β} {b : β} :
    (x >>= fun _ => y) = .ok b ↔ x = .ok () ∧ y = .ok b :=
  bind_eq_ok_iff.trans ⟨fun ⟨_, checked, read⟩ => ⟨checked, read⟩,
    fun ⟨checked, read⟩ => ⟨(), checked, read⟩⟩

/-! ## Codecs -/

namespace Codec

theorem decodeText_eq_ok_iff {c : Codec α} {text : String} {a : α} :
    c.decodeText text = .ok a ↔
      c.decode (Json.read text).document = .ok a ∧ (Json.read text).isWhole := by
  rw [decodeText, bind_eq_ok_iff]
  by_cases whole : (Json.read text).isWhole
  · simp [whole, pure, Except.pure]
  · simp [whole, throw, throwThe, MonadExceptOf.throw]

theorem decodeItems_eq_ok_iff {decode : Decoder α} {items : List Json} {as : List α} :
    decodeItems decode items = .ok as ↔ List.Forall₂ (fun j a => decode j = .ok a) items as := by
  induction items generalizing as with
  | nil =>
    rw [decodeItems, List.forall₂_nil_left_iff, Except.ok.injEq]
    exact eq_comm
  | cons j rest ih =>
    simp only [decodeItems, bind_eq_ok_iff, ih, List.forall₂_cons_left_iff, pure, Except.pure,
      Except.ok.injEq]
    constructor
    · rintro ⟨a, first, more, later, rfl⟩
      exact ⟨a, more, first, later, rfl⟩
    · rintro ⟨a, more, first, later, rfl⟩
      exact ⟨a, first, more, later, rfl⟩

theorem decode_listOf_eq_ok_iff {c : Codec α} {j : Json} {as : List α} :
    c.listOf.decode j = .ok as ↔
      ∃ items, j = .list items ∧ List.Forall₂ (fun j a => c.decode j = .ok a) items as := by
  simp only [← decodeItems_eq_ok_iff]
  cases j <;> simp [listOf]

end Codec

/-! ## Forms -/

namespace Form

variable {ms : Json.Members} {name : String}

/-- The members hold a value for a field. -/
def Holds (ms : Json.Members) (name : String) (decode : Decoder α) (a : α) : Prop :=
  ∃ j, valueOf? name ms = some j ∧ decode j = .ok a

theorem build_seq_eq_ok_iff {f : Form (α → β)} {x : Form α} {b : β} :
    (f <*> x).build ms = .ok b ↔ ∃ g, f.build ms = .ok g ∧ ∃ a, x.build ms = .ok a ∧ g a = b := by
  show (do let g ← f.build ms; let a ← x.build ms; return g a) = _ ↔ _
  simp only [bind_eq_ok_iff, pure, Except.pure, Except.ok.injEq]

theorem build_map_eq_ok_iff {g : α → β} {x : Form α} {b : β} :
    (g <$> x).build ms = .ok b ↔ ∃ a, x.build ms = .ok a ∧ g a = b := by
  refine build_seq_eq_ok_iff.trans ?_
  show (∃ g', Except.ok g = Except.ok g' ∧ _) ↔ _
  simp

theorem build_required_eq_ok_iff {decode : Decoder α} {a : α} :
    (required name decode).build ms = .ok a ↔ Holds ms name decode a := by
  simp only [required, Holds]
  cases valueOf? name ms with
  | none => simp
  | some j => simp

theorem valueOf?_cons_of_ne {key : String} {j : Json} (other : name ≠ key) :
    valueOf? name ((some key, j) :: ms) = valueOf? name ms := by
  have differ : (some name == some key) = false := by simpa using other
  rw [valueOf?, List.lookup_cons, differ, valueOf?]

/-- A member is accepted if it is no field and may be ignored, or if it is a field that has not
come before and accepts the value. -/
theorem check_cons_eq_ok_iff {ignorable : Json → Bool} {fields : List (String × Decoder Unit)}
    {seen : List String} {key : String} {j : Json} :
    check ignorable fields seen ((some key, j) :: ms) = .ok () ↔
      (fields.lookup key = none ∧ ignorable j ∧ check ignorable fields seen ms = .ok ()) ∨
        ∃ field, fields.lookup key = some field ∧ key ∉ seen ∧ field j = .ok () ∧
          check ignorable fields (key :: seen) ms = .ok () := by
  rw [check]
  cases fields.lookup key with
  | none => by_cases ignored : ignorable j <;> simp [ignored]
  | some field =>
    by_cases again : key ∈ seen
    · simp [again]
    · simp [again, checked_bind_eq_ok_iff]

/-- Members that are accepted with one field read in some way are accepted with that field read in
another way, if the value that it has then is. The field has no other value: it comes only once. -/
theorem check_append_field {ignorable : Json → Bool} {common : List (String × Decoder Unit)}
    {d d' : Decoder Unit} {seen : List String}
    (accepts : name ∉ seen → ∀ j, valueOf? name ms = some j → d' j = .ok ())
    (checked : check ignorable (common ++ [(name, d)]) seen ms = .ok ()) :
    check ignorable (common ++ [(name, d')]) seen ms = .ok () := by
  induction ms generalizing seen with
  | nil => rfl
  | cons m rest ih =>
    obtain ⟨_ | key, j⟩ := m
    · cases checked
    rw [check_cons_eq_ok_iff, List.lookup_append] at checked ⊢
    by_cases same : key = name
    · subst same
      have first : valueOf? key ((some key, j) :: rest) = some j := List.lookup_cons_self
      have here : [(key, d)].lookup key = some d := List.lookup_cons_self
      have there : [(key, d')].lookup key = some d' := List.lookup_cons_self
      rw [here] at checked
      rw [there]
      rcases checked with ⟨unknown, -⟩ | ⟨field, known, fresh, read, checked⟩
      · cases (Option.or_eq_none_iff.1 unknown).2
      · -- the field has come now, so it is not accepted a second time
        have later := ih (fun unseen => absurd List.mem_cons_self unseen) checked
        cases found : common.lookup key with
        | none => exact .inr ⟨d', rfl, fresh, accepts fresh j first, later⟩
        | some other =>
          rw [found] at known
          exact .inr ⟨field, known, fresh, read, later⟩
    · have elsewhere (d : Decoder Unit) : [(name, d)].lookup key = none := by
        simpa using same
      rw [valueOf?_cons_of_ne (Ne.symm same)] at accepts
      rw [elsewhere, Option.or_none] at checked ⊢
      rcases checked with ⟨unknown, ignored, checked⟩ | ⟨field, known, fresh, read, checked⟩
      · exact .inl ⟨unknown, ignored, ih accepts checked⟩
      · refine .inr ⟨field, known, fresh, read, ih (fun unseen => ?_) checked⟩
        exact accepts fun before => unseen (List.mem_cons_of_mem key before)

/-- The members of a record, by the names of its fields. -/
def members? (names : List String) : Json → Option Json.Members
  | .object ms => some ms
  | .list items => some (label names items)
  | _ => none

theorem decode_eq_ok_iff {f : Form α} {j : Json} {a : α} : f.decode j = .ok a ↔
    ∃ ms, members? (f.fields.map Prod.fst) j = some ms ∧ f.ofMembers Json.intact ms = .ok a := by
  cases j <;> simp [decode, members?]

theorem ofMembers_eq_ok_iff {f : Form α} {ignorable : Json → Bool} {a : α} :
    f.ofMembers ignorable ms = .ok a ↔
      check ignorable f.fields [] ms = .ok () ∧ f.build ms = .ok a :=
  checked_bind_eq_ok_iff

end Form

end Labyrinth
