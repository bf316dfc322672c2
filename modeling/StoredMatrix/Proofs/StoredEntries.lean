import StoredMatrix.Proofs.Buffers

/-!
# Stored entries

A column of a sparse matrix pairs rows with values. In a well-formed matrix it lists a row at most
once, so looking a row up finds the one entry that is stored for it, wherever in the column it is.
-/

namespace StoredMatrix

variable {α : Type}

theorem lookup_eq_some_of_mem {entries : List (Int × α)} (hn : (entries.map Prod.fst).Nodup)
    {row : Int} {a : α} (h : (row, a) ∈ entries) : entries.lookup row = some a := by
  obtain ⟨before, after, rfl⟩ := List.append_of_mem h
  refine List.lookup_eq_some_iff.mpr ⟨before, after, rfl, fun entry hmem => ?_⟩
  -- the row of an entry before it would occur twice
  rw [List.map_append, List.map_cons] at hn
  have hne := (List.nodup_append.mp hn).2.2 _ (List.mem_map_of_mem hmem) _ List.mem_cons_self
  exact bne_iff_ne.mpr (Ne.symm hne)

namespace Sparse

theorem column_eq_columnSlice (m : Sparse α) (col : Nat) :
    m.column col = columnSlice m.colPtrs (m.rowIndices.zip m.values) col := by
  simp only [column, columnSlice, List.zip_eq_zipWith, List.drop_zipWith, List.take_zipWith]

section Positions

variable [Element α]

theorem get?_eq_none {m : Sparse α} {row col : Nat} (h : m.dims.contains row col = false) :
    m.get? row col = none := by
  rw [get?, h]
  rfl

theorem get?_eq_some {m : Sparse α} {row col : Nat} (h : m.dims.contains row col = true) :
    m.get? row col = some (((m.column col).lookup (row : Int)).getD Entry.zero) := by
  rw [get?, h]
  rfl

end Positions

namespace WellFormed

variable [Element α] {m : Sparse α} (h : m.WellFormed)

include h

theorem length_zip : (m.rowIndices.zip m.values).length = m.values.length := by
  rw [List.length_zip, h.length_rowIndices, Nat.min_self]

theorem map_fst_column (col : Nat) :
    (m.column col).map Prod.fst = columnSlice m.colPtrs m.rowIndices col := by
  rw [column_eq_columnSlice, ← columnSlice_map, List.map_fst_zip (Nat.le_of_eq h.length_rowIndices)]

theorem map_snd_column (col : Nat) :
    (m.column col).map Prod.snd = columnSlice m.colPtrs m.values col := by
  rw [column_eq_columnSlice, ← columnSlice_map,
    List.map_snd_zip (Nat.le_of_eq h.length_rowIndices.symm)]

theorem flatMap_column :
    (List.range m.dims.cols).flatMap m.column = m.rowIndices.zip m.values := by
  rw [funext m.column_eq_columnSlice]
  exact h.pointers.flatMap_columnSlice h.length_zip

theorem flatMap_values :
    (List.range m.dims.cols).flatMap (fun col => (m.column col).map Prod.snd) = m.values := by
  rw [funext h.map_snd_column]
  exact h.pointers.flatMap_columnSlice rfl

theorem row_bounds_column {col : Nat} {row : Int} {a : α} (hmem : (row, a) ∈ m.column col) :
    0 ≤ row ∧ row < m.dims.rows := by
  have hrow : row ∈ columnSlice m.colPtrs m.rowIndices col :=
    h.map_fst_column col ▸ List.mem_map_of_mem hmem
  exact h.row_bounds row (List.mem_of_mem_drop (List.mem_of_mem_take hrow))

theorem value_mem {col : Nat} {row : Int} {a : α} (hmem : (row, a) ∈ m.column col) :
    a ∈ m.values := by
  have ha : a ∈ columnSlice m.colPtrs m.values col :=
    h.map_snd_column col ▸ List.mem_map_of_mem hmem
  exact List.mem_of_mem_drop (List.mem_of_mem_take ha)

theorem nodup_fst_column {col : Nat} (hc : col < m.dims.cols) :
    ((m.column col).map Prod.fst).Nodup := by
  rw [h.map_fst_column col]
  exact h.nodup_column col hc

theorem exists_column_of_mem {a : α} (ha : a ∈ m.values) :
    ∃ col < m.dims.cols, ∃ row < m.dims.rows, ((row : Int), a) ∈ m.column col := by
  rw [← h.flatMap_values] at ha
  obtain ⟨col, hc, ha⟩ := List.mem_flatMap.mp ha
  obtain ⟨⟨row, _⟩, hmem, rfl⟩ := List.mem_map.mp ha
  obtain ⟨hnn, hlt⟩ := h.row_bounds_column hmem
  refine ⟨col, List.mem_range.mp hc, row.toNat, by omega, ?_⟩
  rwa [Int.toNat_of_nonneg hnn]

/-- Where an entry is stored, that entry is read. -/
theorem get?_of_mem {row col : Nat} {a : α} (hc : col < m.dims.cols)
    (hmem : ((row : Int), a) ∈ m.column col) : m.get? row col = some a := by
  have hr := (h.row_bounds_column hmem).2
  rw [get?_eq_some (by rw [Dims.contains, decide_eq_true (by omega), decide_eq_true hc]; rfl),
    lookup_eq_some_of_mem (h.nodup_fst_column hc) hmem, Option.getD_some]

end WellFormed

/-- Where no entry is stored, zero is read. -/
theorem get?_of_not_mem [Element α] {m : Sparse α} {row col : Nat}
    (hin : m.dims.contains row col = true) (hmem : ∀ a, ((row : Int), a) ∉ m.column col) :
    m.get? row col = some Entry.zero := by
  rw [get?_eq_some hin, List.lookup_eq_none_iff.mpr, Option.getD_none]
  rintro ⟨key, a⟩ hentry
  rw [bne_iff_ne]
  rintro rfl
  exact hmem a hentry

end Sparse

end StoredMatrix
