import Mathlib.Data.List.Nodup
import Mathlib.Data.List.Perm.Subperm
import Mathlib.Data.Set.Card
import Labyrinth.Grid

/-!
# Counting the cells of a grid

The enumeration of the cells lists each of them once (`nodup_cells`, `length_cells`), so a list of
different cells of the grid is not longer than that (`length_le_cellCount`). The place of a cell in
reading order is below the number of cells (`cellIndex_lt`), and no two cells share a place
(`cellIndex_inj`).
-/

namespace Labyrinth

theorem length_upTo (n : Int) : (upTo n).length = n.toNat := by
  rw [upTo, List.length_map, List.length_range]

theorem nodup_upTo (n : Int) : (upTo n).Nodup := by
  refine List.Nodup.map (fun a b same => ?_) List.nodup_range
  exact Int.ofNat.inj same

/-- Row by row nothing is listed twice, if no two places in the rows hold the same. -/
theorem nodup_rows {α : Type} {f : Int → Int → α}
    (inj : ∀ {x y x' y' : Int}, f x y = f x' y' → x = x' ∧ y = y') (columns rows : Int) :
    ((upTo rows).flatMap fun y => (upTo columns).map fun x => f x y).Nodup := by
  refine List.nodup_flatMap.2 ⟨fun y _ => ?_, ?_⟩
  · exact (nodup_upTo columns).map fun x x' same => (inj same).1
  · refine (nodup_upTo rows).imp fun {y y'} differ a inRow inRow' => ?_
    obtain ⟨x, -, rfl⟩ := List.mem_map.1 inRow
    obtain ⟨x', -, same⟩ := List.mem_map.1 inRow'
    exact differ (inj same).2.symm

theorem length_rows {α : Type} (f : Int → Int → α) (columns rows : Int) :
    ((upTo rows).flatMap fun y => (upTo columns).map fun x => f x y).length =
      rows.toNat * columns.toNat := by
  simp only [List.length_flatMap, List.length_map, length_upTo, List.map_const',
    List.sum_replicate_nat]

namespace Grid

variable {g : Grid} {a b : Cell}

theorem length_cells (g : Grid) : g.cells.length = g.cellCount :=
  (length_rows ..).trans (Nat.mul_comm ..)

theorem nodup_cells (g : Grid) : g.cells.Nodup := nodup_rows Cell.mk.inj g.width g.height

theorem length_le_cellCount {l : List Cell} (distinct : l.Nodup) (on : ∀ c ∈ l, g.Contains c) :
    l.length ≤ g.cellCount := by
  rw [← length_cells]
  exact (distinct.subperm fun c h => mem_cells.2 (on c h)).length_le

theorem coe_toFinset_cells (g : Grid) : (g.cells.toFinset : Set Cell) = {c | g.Contains c} := by
  ext c
  simp

theorem finite_contains (g : Grid) : {c | g.Contains c}.Finite := by
  rw [← coe_toFinset_cells]
  exact g.cells.toFinset.finite_toSet

theorem ncard_contains (g : Grid) : {c | g.Contains c}.ncard = g.cellCount := by
  rw [← coe_toFinset_cells, Set.ncard_coe_finset, List.toFinset_card_of_nodup g.nodup_cells,
    length_cells]

theorem Proper.cellCount_eq (proper : g.Proper) : (g.cellCount : Int) = g.width * g.height := by
  obtain ⟨wide, high⟩ := proper
  rw [cellCount, Int.natCast_mul, Int.toNat_of_nonneg (by omega), Int.toNat_of_nonneg (by omega)]

theorem cellIndex_lt (on : g.Contains a) : g.cellIndex a < g.cellCount := by
  obtain ⟨⟨left, right⟩, top, bottom⟩ := on
  have column : a.x.toNat < g.width.toNat := by omega
  have row : a.y.toNat + 1 ≤ g.height.toNat := by omega
  calc
    g.cellIndex a < a.y.toNat * g.width.toNat + g.width.toNat := Nat.add_lt_add_left column _
    _ = (a.y.toNat + 1) * g.width.toNat := (Nat.succ_mul ..).symm
    _ ≤ g.height.toNat * g.width.toNat := Nat.mul_le_mul_right _ row
    _ = g.cellCount := Nat.mul_comm ..

theorem cellIndex_inj (ha : g.Contains a) (hb : g.Contains b)
    (same : g.cellIndex a = g.cellIndex b) : a = b := by
  obtain ⟨⟨aLeft, aRight⟩, aTop, aBottom⟩ := ha
  obtain ⟨⟨bLeft, bRight⟩, bTop, bBottom⟩ := hb
  have wide : 0 < g.width.toNat := by omega
  have column : a.x.toNat = b.x.toNat := by
    have mods := congrArg (· % g.width.toNat) same
    simp only [cellIndex, Nat.mul_add_mod_self_right] at mods
    rwa [Nat.mod_eq_of_lt (by omega), Nat.mod_eq_of_lt (by omega)] at mods
  have row : a.y.toNat = b.y.toNat := by
    have scaled : a.y.toNat * g.width.toNat = b.y.toNat * g.width.toNat := by
      unfold cellIndex at same
      omega
    exact Nat.eq_of_mul_eq_mul_right wide scaled
  ext <;> omega

end Grid

end Labyrinth
