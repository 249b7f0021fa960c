import Labyrinth.Codec.Record
import Labyrinth.Proofs.Json.Documents

/-!
# Codecs that keep values

**Theorem (`Form.Fits.keeps`).** A value that is written as a record of kept values, which are
fields of its form, is kept.

**Kept values** (`Codec.Keeps`). A codec keeps a value if what it writes is read as the value, and
can be written as text and read back. The plain codecs keep the values of their ranges, and a list
of kept values is kept.

**Forms** (`Form.Fits`). A form fits some members if each of its fields accepts the value that
stands there, and all of them together make up the value. Forms are put together of single fields,
and so is this (`Fits.seq`).
-/

namespace Labyrinth

variable {α β : Type} {a : α} {room : Nat}

/-! ## Kept values -/

namespace Codec

/-- What is written for a value is read as it, as a document and as a part of a text. -/
structure Keeps (c : Codec α) (room : Nat) (a : α) : Prop where
  decode_encode : c.decode (c.encode a) = .ok a
  writable : Json.Writable room (c.encode a)

theorem Keeps.decodeText_write {c : Codec α} (h : c.Keeps Json.nestingLimit a) :
    c.decodeText (c.encode a).write = .ok a := by
  rw [decodeText, h.writable.read_write]
  simp only [h.decode_encode]
  rfl

theorem keeps_intBetween {low high n : Int} (lower : low ≤ n) (upper : n ≤ high)
    (small : n.natAbs < Json.significandLimit) : (intBetween low high).Keeps room n where
  decode_encode := if_pos ⟨lower, upper⟩
  writable := .int small

theorem keeps_natural {bound n : Nat} (below : n < bound) (small : bound ≤ Json.significandLimit) :
    (natural bound).Keeps room n where
  decode_encode := by
    have read : (intBetween 0 (bound - 1)).decode (.int n) = .ok (n : Int) :=
      if_pos ⟨by omega, by omega⟩
    show ((intBetween 0 (bound - 1)).decode (.int n)).map Int.toNat = .ok n
    rw [read]
    rfl
  writable := .int (show ((n : Int)).natAbs < _ by omega)

theorem keeps_word (n : UInt32) : word.Keeps room n where
  decode_encode := by
    have kept : (natural UInt32.size).Keeps 0 n.toNat := keeps_natural n.toNat_lt (by decide)
    show ((natural UInt32.size).decode ((natural UInt32.size).encode n.toNat)).map UInt32.ofNat =
      .ok n
    rw [kept.decode_encode]
    exact congrArg Except.ok UInt32.ofNat_toNat
  writable := (keeps_natural n.toNat_lt (by decide)).writable

theorem keeps_smallWord (n : UInt8) : smallWord.Keeps room n where
  decode_encode := by
    have kept : (natural UInt8.size).Keeps 0 n.toNat := keeps_natural n.toNat_lt (by decide)
    show ((natural UInt8.size).decode ((natural UInt8.size).encode n.toNat)).map UInt8.ofNat =
      .ok n
    rw [kept.decode_encode]
    exact congrArg Except.ok UInt8.ofNat_toNat
  writable := (keeps_natural n.toNat_lt (by decide)).writable

theorem keeps_bool (b : Bool) : bool.Keeps room b := ⟨rfl, .bool b⟩

theorem keeps_text (s : String) : text.Keeps room s := ⟨rfl, .text s⟩

theorem keeps_choice {all : List α} {name : α → String} (mem : a ∈ all)
    (distinct : ∀ b ∈ all, name b = name a → b = a) : (choice all name).Keeps room a where
  decode_encode := by
    show (all.find? (name · = name a)).elim (Except.error DecodeError.malformed) Except.ok =
      Except.ok a
    cases found : all.find? (name · = name a) with
    | none => exact absurd (List.find?_eq_none.1 found a mem) (by simp)
    | some b =>
      have same : name b = name a := by simpa using List.find?_some found
      rw [distinct b (List.mem_of_find?_eq_some found) same]
      rfl
  writable := .text (name a)

theorem decodeItems_encode {c : Codec α} {items : List α}
    (keeps : ∀ a ∈ items, c.decode (c.encode a) = .ok a) :
    decodeItems c.decode (items.map c.encode) = .ok items := by
  induction items with
  | nil => rfl
  | cons a rest ih =>
    rw [List.forall_mem_cons] at keeps
    rw [List.map_cons, decodeItems, keeps.1, ih keeps.2]
    rfl

theorem keeps_listOf {c : Codec α} {items : List α} (keeps : ∀ a ∈ items, c.Keeps room a) :
    c.listOf.Keeps (room + 1) items where
  decode_encode := decodeItems_encode fun a mem => (keeps a mem).decode_encode
  writable := .list fun j mem => by
    obtain ⟨a, listed, rfl⟩ := List.mem_map.1 mem
    exact (keeps a listed).writable

end Codec

/-! ## Forms -/

namespace Form

/-- Each field accepts what stands there, and together they make up the value. -/
structure Fits (f : Form α) (ms : Json.Members) (a : α) : Prop where
  build : f.build ms = .ok a
  fields : ∀ field ∈ f.fields, ∀ j ∈ valueOf? field.1 ms, field.2 j = .ok ()

variable {ms : Json.Members} {name : String} {j : Json}

theorem Fits.seq {f : Form (α → β)} {x : Form α} {g : α → β} (hf : f.Fits ms g)
    (hx : x.Fits ms a) : (f <*> x).Fits ms (g a) where
  build := by
    show (do let g ← f.build ms; let a ← x.build ms; return g a) = _
    rw [hf.build, hx.build]
    rfl
  fields field mem := by
    rcases List.mem_append.1 mem with mem | mem
    · exact hf.fields field mem
    · exact hx.fields field mem

theorem Fits.map {x : Form α} (g : α → β) (hx : x.Fits ms a) : (g <$> x).Fits ms (g a) :=
  Fits.seq ⟨rfl, fun _ mem => absurd mem List.not_mem_nil⟩ hx

theorem Fits.withDefault {default : α} {decode : Decoder α} (stands : valueOf? name ms = some j)
    (read : decode j = .ok a) : (withDefault name default decode).Fits ms a where
  build := by simp only [Form.withDefault, stands, read]
  fields := by
    intro field mem k holds
    obtain rfl := List.mem_singleton.1 mem
    rw [stands] at holds
    obtain rfl := Option.some.inj holds
    show discard (decode j) = _
    rw [read]
    rfl

theorem Fits.required {decode : Decoder α} (stands : valueOf? name ms = some j)
    (read : decode j = .ok a) : (required name decode).Fits ms a where
  build := by simp only [Form.required, stands, read]
  fields := by
    have fits : (Form.withDefault name a decode).Fits ms a := .withDefault stands read
    exact fits.fields

theorem Fits.optional {c : Codec α} {o : Option α} (stands : valueOf? name ms = o.map c.encode)
    (read : ∀ a ∈ o, c.decode (c.encode a) = .ok a ∧ c.encode a ≠ .null) :
    (optional name c).Fits ms o := by
  cases o with
  | none =>
    refine ⟨by simp only [Form.optional, Form.withDefault, stands, Option.map_none], ?_⟩
    intro field mem k holds
    obtain rfl := List.mem_singleton.1 mem
    rw [stands] at holds
    cases holds
  | some a =>
    obtain ⟨read, notNull⟩ := read a rfl
    refine Fits.withDefault stands ?_
    show c.orNull.decode (c.encode a) = .ok (some a)
    simp only [Codec.orNull, read]
    rfl

/-! ## Records -/

theorem valueOf?_record (members : List (String × Json)) (name : String) :
    valueOf? name (members.map fun (key, value) => (some key, value)) = members.lookup name := by
  induction members with
  | nil => rfl
  | cons m rest ih =>
    rw [valueOf?] at ih
    rw [valueOf?, List.map_cons, List.lookup_cons, List.lookup_cons, ih]
    rfl

theorem lookup_of_mem {members : List (String × β)} {m : String × β}
    (nodup : (members.map Prod.fst).Nodup) (mem : m ∈ members) :
    members.lookup m.1 = some m.2 := by
  obtain ⟨front, back, rfl⟩ := List.append_of_mem mem
  refine List.lookup_eq_some_iff.2 ⟨front, back, rfl, fun other before => ?_⟩
  rw [List.map_append, List.nodup_append] at nodup
  have apart := nodup.2.2 other.1 (List.mem_map_of_mem before) m.1 List.mem_cons_self
  simpa using apart.symm

/-- Members with known names, each named once, are accepted if the fields accept them. -/
theorem check_record {ignorable : Json → Bool} {fields : List (String × Decoder Unit)}
    {members : List (String × Json)} {seen : List String} (nodup : (members.map Prod.fst).Nodup)
    (fresh : ∀ m ∈ members, m.1 ∉ seen)
    (known : ∀ m ∈ members, ∃ decode, fields.lookup m.1 = some decode ∧ decode m.2 = .ok ()) :
    check ignorable fields seen (members.map fun (key, value) => (some key, value)) = .ok () := by
  induction members generalizing seen with
  | nil => rfl
  | cons m rest ih =>
    rw [List.map_cons, List.nodup_cons] at nodup
    rw [List.forall_mem_cons] at fresh known
    obtain ⟨decode, found, accepts⟩ := known.1
    have later : ∀ k ∈ rest, k.1 ∉ m.1 :: seen := by
      intro k mem
      rw [List.mem_cons, not_or]
      exact ⟨fun same => nodup.1 (same ▸ List.mem_map_of_mem mem), fresh.2 k mem⟩
    rw [List.map_cons, check]
    simp only [found, fresh.1, if_false, accepts]
    exact ih nodup.2 later known.2

/-- **A record is read as the value that its form puts together.** -/
theorem Fits.ofMembers_record {f : Form α} {members : List (String × Json)}
    (fits : f.Fits (members.map fun (key, value) => (some key, value)) a)
    (distinct : (f.fields.map Prod.fst).Nodup)
    (keys : (members.map Prod.fst).Sublist (f.fields.map Prod.fst)) (ignorable : Json → Bool) :
    f.ofMembers ignorable (members.map fun (key, value) => (some key, value)) = .ok a := by
  have nodup : (members.map Prod.fst).Nodup := distinct.sublist keys
  have accepts : ∀ m ∈ members, ∃ decode, f.fields.lookup m.1 = some decode ∧
      decode m.2 = .ok () := by
    intro m mem
    obtain ⟨field, isField, same⟩ := List.mem_map.1 (keys.subset (List.mem_map_of_mem mem))
    refine ⟨field.2, by rw [← same]; exact lookup_of_mem distinct isField, ?_⟩
    apply fits.fields field isField
    rw [same, valueOf?_record]
    exact lookup_of_mem nodup mem
  have checked : check ignorable f.fields [] _ = .ok () :=
    check_record nodup (fun _ _ => List.not_mem_nil) accepts
  rw [ofMembers, checked]
  exact fits.build

theorem writable_record {members : List (String × Json)}
    (writable : ∀ m ∈ members, Json.Writable room m.2) :
    Json.Writable (room + 1) (.record members) := by
  refine .object (fun m mem => ?_) (fun m mem => ?_)
  · obtain ⟨m, -, rfl⟩ := List.mem_map.1 mem
    rfl
  · obtain ⟨m, listed, rfl⟩ := List.mem_map.1 mem
    exact writable m listed

/-- A value that is written as a record of kept values is kept. -/
theorem Fits.keeps {c : Codec α} {f : Form α} {members : List (String × Json)}
    (fits : f.Fits (members.map fun (key, value) => (some key, value)) a)
    (writes : c.encode a = .record members)
    (reads : c.decode = f.decode ∨ c.decode = f.decodeReadable)
    (distinct : (f.fields.map Prod.fst).Nodup)
    (keys : (members.map Prod.fst).Sublist (f.fields.map Prod.fst))
    (writable : ∀ m ∈ members, Json.Writable room m.2) : c.Keeps (room + 1) a where
  decode_encode := by
    rw [writes]
    rcases reads with reads | reads <;> rw [reads]
    · exact fits.ofMembers_record distinct keys Json.intact
    · exact fits.ofMembers_record distinct keys Json.readable
  writable := by
    rw [writes]
    exact writable_record writable

/-! ## Members that may be missing -/

section

variable {base : List (String × Json)} {encode : β → Json}

theorem valueOf?_optional (fresh : name ∉ base.map Prod.fst) (o : Option β) :
    valueOf? name ((base ++ o.toList.map fun b => (name, encode b)).map fun (key, value) =>
      (some key, value)) = o.map encode := by
  have missing : base.lookup name = none := by
    refine List.lookup_eq_none_iff.2 fun m mem => ?_
    have other : name ≠ m.1 := fun same => fresh (same ▸ List.mem_map_of_mem mem)
    simpa using other
  rw [valueOf?_record, List.lookup_append, missing]
  cases o with
  | none => rfl
  | some b => exact List.lookup_cons_self

theorem keys_optional (o : Option β) :
    ((base ++ o.toList.map fun b => (name, encode b)).map Prod.fst).Sublist
      (base.map Prod.fst ++ [name]) := by
  cases o <;> simp

theorem writable_optional (writable : ∀ m ∈ base, Json.Writable room m.2) {o : Option β}
    (value : ∀ b ∈ o, Json.Writable room (encode b)) :
    ∀ m ∈ base ++ o.toList.map fun b => (name, encode b), Json.Writable room m.2 := by
  intro m mem
  rcases List.mem_append.1 mem with mem | mem
  · exact writable m mem
  · obtain ⟨b, listed, rfl⟩ := List.mem_map.1 mem
    exact value b (Option.mem_toList.1 listed)

end

end Form

end Labyrinth
