import Mathlib.Logic.Relation
import Labyrinth.Partition.Queries
import Labyrinth.Proofs.Partition.Labels

/-!
# Linked representatives answer like labels

**Theorem (`answers_eq_labelling`).** Whatever is asked of a partition in which every number starts
in a set of its own, the answers are those of the labels. So two numbers have one representative
exactly when the pairs joined so far connect them. A query is refused exactly when an index is out
of range, and then no later answer depends on whether it was asked.

A single query keeps a partition representing its labels (`Represents.ask`). A pair that is joined
merges two sets of labels and nothing else (`Represents.label_ask_eq_iff`), which is one step of the
equivalence closure. A query that is refused may have shortened ways, but it leaves the labels as
they are (`Labelling.ask_of_refused`), and the labels are all that the answers depend on.
-/

namespace Labyrinth

open Labyrinth.Partition (Query Reply OutOfRange)
open Relation (EqvGen)

namespace Labelling

variable {s : Labelling} {q : Query} {e : OutOfRange}

/-! ## Queries that are refused -/

@[simp] theorem length_ask (s : Labelling) (q : Query) :
    (s.ask q).2.labels.length = s.labels.length := by
  cases q with
  | find x => rfl
  | union a b => exact length_union s a b

@[simp] theorem length_afterQueries (s : Labelling) (queries : List Query) :
    (s.afterQueries queries).labels.length = s.labels.length := by
  induction queries generalizing s with
  | nil => rfl
  | cons q rest ih => exact (ih (s.ask q).2).trans (length_ask s q)

/-- A query is answered, or it is refused and leaves the labels as they are. -/
theorem answered_or_refused (s : Labelling) (q : Query) :
    (q.refusal? s.labels.length = none ∧ ∃ reply, (s.ask q).1 = .ok reply) ∨
      ∃ e, q.refusal? s.labels.length = some e ∧ s.ask q = (.error e, s) := by
  cases q with
  | find x =>
    by_cases h : x < s.labels.length
    · rw [ask, find_of_lt h]
      exact .inl ⟨if_pos h, _, rfl⟩
    · rw [ask, find_of_le (Nat.not_lt.1 h)]
      exact .inr ⟨_, if_neg h, rfl⟩
  | union a b =>
    by_cases h : a < s.labels.length
    · by_cases h' : b < s.labels.length
      · rw [ask, union_of_lt h h']
        refine .inl ⟨by rw [Query.refusal?, if_pos h, if_pos h'], ?_⟩
        by_cases joined : s.label a = s.label b
        · rw [if_pos joined]
          exact ⟨_, rfl⟩
        · rw [if_neg joined]
          exact ⟨_, rfl⟩
      · rw [ask, union_of_le_right h (Nat.not_lt.1 h')]
        exact .inr ⟨_, by rw [Query.refusal?, if_pos h, if_neg h'], rfl⟩
    · rw [ask, union_of_le_left (Nat.not_lt.1 h)]
      exact .inr ⟨_, if_neg h, rfl⟩

/-- Only a query that joins a pair changes labels. -/
theorem ask_of_not_joins (apart : ∀ a b, ¬ Query.Joins s.labels.length [q] a b) :
    (s.ask q).2 = s := by
  obtain ⟨accepted, -⟩ | ⟨e, -, refused⟩ := s.answered_or_refused q
  · cases q with
    | find x => rfl
    | union a b =>
      exact absurd ⟨List.mem_cons_self, Query.refusal?_union_eq_none.1 accepted⟩ (apart a b)
  · rw [refused]

theorem ask_of_refused (refused : q.refusal? s.labels.length = some e) :
    s.ask q = (.error e, s) := by
  obtain ⟨accepted, -⟩ | ⟨e', refused', kept⟩ := s.answered_or_refused q
  · rw [accepted] at refused
    cases refused
  · rw [refused'] at refused
    cases refused
    exact kept

theorem ask_eq_error_iff : (s.ask q).1 = .error e ↔ q.refusal? s.labels.length = some e := by
  refine ⟨fun failed => ?_, fun refused => by rw [ask_of_refused refused]⟩
  obtain ⟨-, reply, answered⟩ | ⟨e', refused, kept⟩ := s.answered_or_refused q
  · rw [answered] at failed
    cases failed
  · rw [kept] at failed
    cases failed
    exact refused

end Labelling

namespace Partition

variable {p : Partition} {s : Labelling} {x y : Nat}

/-! ## The same answers -/

theorem Represents.ask (h : p.Represents s) (q : Query) :
    (p.ask q).1 = (s.ask q).1 ∧ (p.ask q).2.Represents (s.ask q).2 := by
  cases q with
  | find x =>
    obtain ⟨same, represents⟩ := h.find x
    exact ⟨congrArg (Except.map Reply.representative) same, represents⟩
  | union a b =>
    obtain ⟨same, represents⟩ := h.union a b
    exact ⟨congrArg (Except.map Reply.joined) same, represents⟩

theorem Represents.afterQueries (h : p.Represents s) (queries : List Query) :
    (p.afterQueries queries).Represents (s.afterQueries queries) := by
  induction queries generalizing p s with
  | nil => exact h
  | cons q rest ih => exact ih (h.ask q).2

theorem Represents.answers (h : p.Represents s) (queries : List Query) :
    Partition.answers queries p = Labelling.answers queries s := by
  induction queries generalizing p s with
  | nil => rfl
  | cons q rest ih =>
    obtain ⟨same, represents⟩ := h.ask q
    rw [Partition.answers, Labelling.answers, same, ih represents]

/-! ## What is connected -/

/-- Two numbers are together at once: they carry one label, or some queries join them. -/
def Together (s : Labelling) (queries : List Query) (a b : Nat) : Prop :=
  s.label a = s.label b ∨ Query.Joins s.labels.length queries a b

theorem Together.mono {queries more : List Query} (sub : queries ⊆ more) {a b : Nat}
    (h : Together s queries a b) : Together s more a b :=
  h.imp_right fun ⟨asked, inRange⟩ => ⟨sub asked, inRange⟩

theorem label_eq_of_eqvGen {r : Nat → Nat → Prop} (agrees : ∀ a b, r a b → s.label a = s.label b)
    (h : EqvGen r x y) : s.label x = s.label y := by
  induction h with
  | rel a b related => exact agrees a b related
  | refl a => rfl
  | symm a b _ ih => exact ih.symm
  | trans a b c _ _ ih ih' => exact ih.trans ih'

/-- A query connects what its pair connects, and nothing else. -/
theorem Represents.label_ask_eq_iff (h : p.Represents s) (q : Query) :
    (s.ask q).2.label x = (s.ask q).2.label y ↔ EqvGen (Together s [q]) x y := by
  by_cases joins : ∃ a b, Query.Joins s.labels.length [q] a b
  · obtain ⟨a, b, isPair, lt, lt'⟩ := joins
    obtain rfl := List.mem_singleton.1 isPair
    have merged {x y : Nat} := Labelling.label_union_eq_iff (x := x) (y := y) lt lt' (h.label_lt lt)
      (h.label_lt lt')
    have pair : EqvGen (Together s [.union a b]) a b := .rel a b (.inr ⟨isPair, lt, lt'⟩)
    constructor
    · intro same
      obtain same | ⟨first, second⟩ | ⟨first, second⟩ := merged.1 same
      · exact .rel x y (.inl same)
      · exact .trans x a y (.rel x a (.inl first)) (.trans a b y pair (.rel b y (.inl second)))
      · exact .trans x b y (.rel x b (.inl first))
          (.trans b a y (.symm a b pair) (.rel a y (.inl second)))
    · refine label_eq_of_eqvGen ?_
      rintro x y (same | ⟨isPair, -, -⟩)
      · exact merged.2 (.inl same)
      · cases List.mem_singleton.1 isPair
        exact merged.2 (.inr (.inl ⟨rfl, rfl⟩))
  · have none (a b : Nat) : ¬ Query.Joins s.labels.length [q] a b :=
      fun found => joins ⟨a, b, found⟩
    rw [Labelling.ask_of_not_joins none]
    constructor
    · exact fun same => .rel x y (.inl same)
    · exact label_eq_of_eqvGen fun a b together => together.resolve_right (none a b)

/-- Queries connect what their pairs connect, and nothing else. -/
theorem Represents.label_afterQueries_eq_iff (h : p.Represents s) (queries : List Query) :
    (s.afterQueries queries).label x = (s.afterQueries queries).label y ↔
      EqvGen (Together s queries) x y := by
  induction queries generalizing p s with
  | nil =>
    constructor
    · exact fun same => .rel x y (.inl same)
    · exact label_eq_of_eqvGen fun a b together =>
        together.resolve_right fun none => absurd none.1 List.not_mem_nil
  | cons q rest ih =>
    have first {x y : Nat} := h.label_ask_eq_iff (x := x) (y := y) q
    rw [Labelling.afterQueries, List.foldl_cons]
    -- each of the two closures holds the pairs that the other one is generated by
    refine (ih (h.ask q).2).trans ⟨EqvGen.eqvGen_le ?_ x y, EqvGen.eqvGen_le ?_ x y⟩
    · rintro a b (same | ⟨later, inRange⟩)
      · have now : [q] ⊆ q :: rest := List.cons_subset_cons q (List.nil_subset rest)
        exact EqvGen.mono (fun a b => Together.mono now) a b (first.1 same)
      · rw [Labelling.length_ask] at inRange
        exact .rel a b (.inr ⟨List.mem_cons_of_mem q later, inRange⟩)
    · rintro a b (same | ⟨asked, inRange⟩)
      · exact .rel a b (.inl (first.2 (.rel a b (.inl same))))
      · obtain rfl | later := List.mem_cons.1 asked
        · have pair : Together s [.union a b] a b := .inr ⟨List.mem_cons_self, inRange⟩
          exact .rel a b (.inl (first.2 (.rel a b pair)))
        · exact .rel a b (.inr ⟨later, by rwa [Labelling.length_ask]⟩)

theorem label_discrete_afterQueries_eq_iff (n : Nat) (queries : List Query) :
    let s := (Labelling.discrete n).afterQueries queries
    s.label x = s.label y ↔ EqvGen (Query.Joins n queries) x y := by
  refine ((Represents.discrete n).label_afterQueries_eq_iff queries).trans ⟨?_, ?_⟩
  · refine EqvGen.eqvGen_le ?_ x y
    rintro a b (same | joined)
    · rw [Labelling.label_discrete, Labelling.label_discrete] at same
      exact same ▸ .refl a
    · rw [Labelling.length_discrete] at joined
      exact .rel a b joined
  · refine EqvGen.mono (fun a b joined => .inr ?_) x y
    rwa [Labelling.length_discrete]

end Partition

/-- **Linked representatives answer like labels.** -/
theorem Partition.answers_eq_labelling (n : Nat) (queries : List Query) :
    let p := (discrete n).afterQueries queries
    answers queries (discrete n) = Labelling.answers queries (.discrete n) ∧
      (∀ x y, x < n → y < n →
        ((p.find x).1 = (p.find y).1 ↔ Relation.EqvGen (Query.Joins n queries) x y)) ∧
      ∀ q, (∀ e, (p.ask q).1 = .error e ↔ q.refusal? n = some e) ∧
        ∀ e, q.refusal? n = some e → ∀ later, answers later (p.ask q).2 = answers later p := by
  intro p
  have represents : p.Represents ((Labelling.discrete n).afterQueries queries) :=
    (Represents.discrete n).afterQueries queries
  have length : ((Labelling.discrete n).afterQueries queries).labels.length = n := by simp
  refine ⟨(Represents.discrete n).answers queries, fun x y h h' => ?_, fun q => ⟨fun e => ?_, ?_⟩⟩
  · rw [(represents.find x).1, (represents.find y).1, Labelling.find_of_lt (by rwa [length]),
      Labelling.find_of_lt (by rwa [length]), Except.ok.injEq]
    exact label_discrete_afterQueries_eq_iff n queries
  · rw [(represents.ask q).1, Labelling.ask_eq_error_iff, length]
  · intro e refused later
    have kept := (represents.ask q).2
    rw [Labelling.ask_of_refused (by rwa [length])] at kept
    rw [kept.answers, represents.answers]

/-- The representative of the first of two equal sets stays, and a refused pair joins nothing. -/
example : Partition.answers [.union 0 1, .union 1 5, .find 1, .find 2] (.discrete 3) =
    [.ok (.joined true), .error ⟨3, 5⟩, .ok (.representative 0), .ok (.representative 2)] := by
  rfl

end Labyrinth
