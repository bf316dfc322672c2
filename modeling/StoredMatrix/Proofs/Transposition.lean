import Mathlib.Data.List.Perm.Basic
import StoredMatrix.Proofs.RoundTrip

/-!
# Grids in column-major buffers

A grid lists its entries row by row, a buffer column by column. Both are ways to go through the
positions: the buffer of a grid lists the entry at each position in their order, and has the same
entries as the rows one after the other.
-/

namespace StoredMatrix

/-! ## Positions in a buffer -/

namespace Dims

variable {d : Dims} {row col : Nat}

end Dims

namespace Grid

variable {α : Type} [Entry α] {g : Grid α} {d : Dims}

theorem column_eq (hl : g.length = d.rows) (col : Nat) :
    g.column col = (List.range d.rows).map fun row => g.entry row col := by
  apply List.ext_getElem
  · rw [column, List.length_map, List.length_map, List.length_range, hl]
  · intro row hr hr'
    rw [column, List.length_map] at hr
    simp only [column, List.getElem_map, List.getElem_range, entry, List.getD_eq_getElem?_getD,
      List.getElem?_eq_getElem hr, Option.getD_some]

/-- The columns side by side list the entries in the order of the positions. -/
theorem flatMap_column (hl : g.length = d.rows) :
    (List.range d.cols).flatMap g.column = d.positions.map fun p => g.entry p.1 p.2 := by
  rw [Dims.positions, List.map_flatMap]
  refine List.flatMap_congr fun col _ => ?_
  rw [column_eq hl, List.map_map]
  rfl

theorem map_getD_range {row : List α} {n : Nat} (h : row.length = n) :
    (List.range n).map (fun col => row.getD col Entry.zero) = row := by
  apply List.ext_getElem
  · rw [List.length_map, List.length_range, h]
  · intro col _ hc
    simp only [List.getElem_map, List.getElem_range, List.getD_eq_getElem?_getD,
      List.getElem?_eq_getElem hc, Option.getD_some]

/-- Going through a grid column by column or row by row meets the same entries. -/
theorem flatMap_column_perm {n : Nat} (h : ∀ row ∈ g, row.length = n) :
    ((List.range n).flatMap g.column).Perm g.flatten := by
  induction g with
  | nil => simp [column]
  | cons row g ih =>
      -- the first row contributes the head of every column
      have hheads := List.map_append_flatMap_perm (List.range n) (fun col => row.getD col Entry.zero)
        (column g)
      rw [map_getD_range (h row List.mem_cons_self)] at hheads
      rw [List.flatten_cons]
      exact hheads.symm.trans ((ih fun r hr => h r (List.mem_cons_of_mem row hr)).append_left row)

theorem countNonzero_eq {arg : String} (h : g.dims arg = .ok d) :
    g.countNonzero = d.positions.countP fun p => Entry.isNonzero (g.entry p.1 p.2) := by
  obtain ⟨hl, _, hrow⟩ := dims_eq_ok.mp h
  rw [Grid.countNonzero, StoredMatrix.countNonzero, ← (flatMap_column_perm hrow).countP_eq,
    flatMap_column hl, List.countP_map]
  rfl

end Grid

end StoredMatrix
