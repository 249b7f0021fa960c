import Labyrinth.Proofs.Listing.Legible
import Labyrinth.Proofs.Run.Reshaping

/-!
# Listings are faithful

**Theorem (`Program.listings_faithful`).** Two programs have the same listing in plain words if and
only if they have the same one in JavaScript. If they have the same listing in plain words or in
Python, their runs end alike.

Each listing shows the tokens of the program (`Style.Legible.tokens_eq`), and these say what the
program is written out to, up to the names of the blocks and the counts that nothing reads
(`written_kinds_eq`). A verdict depends on no more than that (`Plan.renamed_verdict_of_written`).
-/

namespace Labyrinth

open Script Listing

variable {p q : Program}

theorem Program.pseudocode_eq_iff : pseudocode.text p = pseudocode.text q ↔
    javaScript.text p = javaScript.text q := by
  constructor
  · intro same
    exact Style.text_congr rfl (pseudocode_regular.legible.tokens_eq same)
  · intro same
    exact Style.text_congr rfl (javaScript_regular.legible.tokens_eq same)

theorem Plan.verdict_of_tokens (same : tokens 0 p.blocks = tokens 0 q.blocks) (m : Maze)
    (config : RunConfig) (robot : Robot) :
    ((Plan.of m p config).execute robot).verdict.renamed (fun _ => "") =
      ((Plan.of m q config).execute robot).verdict.renamed (fun _ => "") := by
  have called (bs : List Block) : bs.map (Block.called fun _ => "") =
      (bs.map Block.kind).map (·, "") := by
    rw [List.map_map]
    rfl
  have maze : (Plan.of m p config).maze = (Plan.of m q config).maze := rfl
  apply renamed_verdict_of_written maze rfl
  show p.written.map _ = q.written.map _
  rw [called, called, written_kinds_eq same]

/-- **What two listings tell apart, and what they do not.** -/
theorem Program.listings_faithful (p q : Program) :
    (pseudocode.text p = pseudocode.text q ↔ javaScript.text p = javaScript.text q) ∧
    (pseudocode.text p = pseudocode.text q ∨ python.text p = python.text q →
      ∀ (m : Maze) (config : RunConfig) (robot : Robot),
        let v := ((Plan.of m p config).execute robot).verdict
        let v' := ((Plan.of m q config).execute robot).verdict
        v.outcome = v'.outcome ∧ v.success = v'.success ∧ v.message = v'.message ∧
          v.finalRobot = v'.finalRobot ∧ v.steps = v'.steps ∧ v.stars = v'.stars) := by
  refine ⟨pseudocode_eq_iff, fun listed m config robot => ?_⟩
  have same : tokens 0 p.blocks = tokens 0 q.blocks := by
    rcases listed with plain | python
    · exact pseudocode_regular.legible.tokens_eq plain
    · exact python_regular.legible.tokens_eq python
  have verdict := Plan.verdict_of_tokens same m config robot
  rw [Verdict.renamed, Verdict.renamed, Verdict.mk.injEq] at verdict
  obtain ⟨outcome, success, message, finalRobot, steps, stars, -⟩ := verdict
  exact ⟨outcome, success, message, finalRobot, steps, stars⟩

/-- Names, a stray closing bracket and the closing bracket at the end leave no mark in a listing. -/
theorem Program.listings_faithful_corridor :
    let m : Maze := .close ⟨3, 1⟩ .origin ⟨2, 0⟩ [] (by decide) (by decide) (by decide) (by decide)
    let p : Program := ⟨[⟨"a", .repeatEnd, none⟩, ⟨"b", .repeatStart, none⟩, ⟨"c", .forward, none⟩]⟩
    let q : Program := ⟨[⟨"d", .repeatStart, some 2⟩, ⟨"e", .forward, some 7⟩,
      ⟨"f", .repeatEnd, none⟩]⟩
    python.text p = python.text q ∧
      ((Plan.of m p {}).execute ⟨.origin, .right⟩).verdict.message =
        ((Plan.of m q {}).execute ⟨.origin, .right⟩).verdict.message := by
  intro m p q
  have listed : python.text p = python.text q := by decide
  exact ⟨listed, ((p.listings_faithful q).2 (.inr listed) m {} ⟨.origin, .right⟩).2.2.1⟩

end Labyrinth
