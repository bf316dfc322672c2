import StoredMatrix.Proofs.CheckedArithmetic
import StoredMatrix.Proofs.RandomAccess
import StoredMatrix.Storage.Checked

/-!
# Checked reading

Reading an entry computes positions in the buffers of a matrix, and so does showing all of them. On a
well-formed matrix whose positions are few enough to count, no step of that goes wrong.
-/

namespace StoredMatrix

variable {α : Type} [Element α]

/-! ## Bounds -/

theorem Dims.rows_le_count {d : Dims} (h : d.Positive) : d.rows ≤ d.count :=
  Nat.le_mul_of_pos_right _ h.cols_pos

theorem Dims.cols_le_count {d : Dims} (h : d.Positive) : d.cols ≤ d.count :=
  Nat.le_mul_of_pos_left _ h.rows_pos

omit [Element α] in
theorem Diagonal.WellFormed.diagonalOffset_lt {m : Diagonal α} (h : m.WellFormed) {k : Nat}
    (hk : k < m.data.length) : m.dims.diagonalOffset k < m.dims.count := by
  obtain ⟨hr, hc⟩ := h.lt_of_getElem? (List.getElem?_eq_getElem hk)
  exact Dims.diagonalOffset_eq k ▸ Dims.offset_lt hr hc

namespace Sparse.WellFormed

variable {m : Sparse α} (h : m.WellFormed)

include h

theorem offset_lt_of_mem {i : Nat} {a : α} (hmem : (i, a) ∈ m.offsetEntries) : i < m.dims.count := by
  obtain ⟨col, hc, row, hcolumn, rfl⟩ := mem_offsetEntries.mp hmem
  obtain ⟨hnn, hlt⟩ := h.row_bounds_column hcolumn
  exact Dims.offset_lt (by omega) hc

theorem map_snd_offsetEntries : m.offsetEntries.map Prod.snd = m.values := by
  simp only [offsetEntries, List.map_flatMap, List.map_map, Function.comp_def]
  exact h.flatMap_values

/-- Different entries are written to different offsets, so there are no more of them than positions. -/
theorem length_values_le : m.values.length ≤ m.dims.count := by
  have hsubset : m.offsetEntries.map Prod.fst ⊆ List.range m.dims.count := by
    intro i hi
    obtain ⟨⟨_, a⟩, hmem, rfl⟩ := List.mem_map.mp hi
    exact List.mem_range.mpr (h.offset_lt_of_mem hmem)
  have hlength := congrArg List.length h.map_snd_offsetEntries
  have hle := (List.subperm_of_subset h.nodup_offsetEntries hsubset).length_le
  rw [List.length_map] at hlength hle
  rwa [hlength, List.length_range] at hle

end Sparse.WellFormed

/-! ## No step goes wrong -/

theorem Dense.WellFormed.checkedEntry_eq {m : Dense α} (h : m.WellFormed) (hn : m.dims.count < wordLimit)
    {row col : Nat} (hr : row < m.dims.rows) (hc : col < m.dims.cols) :
    m.checkedEntry row col = .ok (m.entry row col) := by
  have hlt := Dims.offset_lt hr hc
  have hread := h.getElem?_offset hr hc
  rw [Dims.offset] at hlt hread
  simp [checkedEntry, hread]
  omega

theorem Dense.WellFormed.checkedGet_eq {m : Dense α} (h : m.WellFormed) (hn : m.dims.count < wordLimit)
    (row col : Nat) : m.checkedGet row col = .ok (m.get? row col) := by
  rw [checkedGet]
  split
  · rename_i hin
    obtain ⟨hr, hc⟩ := Dims.contains_iff.mp hin
    rw [h.checkedEntry_eq hn hr hc, h.get?_eq_some hr hc]
    rfl
  · rename_i hout
    rw [get?_eq_none (Bool.eq_false_iff.mpr hout)]

theorem lookup_zip_eq {β : Type} {rows : List Int} (hnn : ∀ r ∈ rows, 0 ≤ r) (xs : List β) (row : Nat) :
    (rows.zip xs).lookup (row : Int) = ((rows.map Int.toNat).idxOf? row).bind (xs[·]?) := by
  induction rows generalizing xs with
  | nil => rfl
  | cons r rows ih =>
      have hr : 0 ≤ r := hnn r List.mem_cons_self
      have ih := ih (fun r hr => hnn r (List.mem_cons_of_mem _ hr))
      cases xs with
      | nil => simp
      | cons x xs =>
          rw [List.zip_cons_cons, List.lookup_cons, List.map_cons, List.idxOf?_cons]
          by_cases heq : r.toNat = row
          · obtain rfl : r = row := by omega
            simp
          · have hne : ((row : Int) == r) = false := by rw [beq_eq_false_iff_ne]; omega
            simp [hne, heq, ih, Option.bind_map]

omit [Element α] in
theorem PointersInto.checkedRange_eq {m : Sparse α} {count col : Nat}
    (h : PointersInto m.colPtrs m.dims.cols count) (hcols : m.dims.cols < wordLimit)
    (hcount : count < wordLimit) (hc : col < m.dims.cols) :
    m.checkedRange col = .ok (columnStart m.colPtrs col, columnStart m.colPtrs (col + 1)) := by
  have hstart := h.columnStart_le (Nat.le_of_lt hc)
  have hstop : columnStart m.colPtrs (col + 1) ≤ _ := h.columnStart_le hc
  simp [Sparse.checkedRange, h.getElem?_eq (Nat.le_of_lt hc), h.getElem?_eq hc]
  omega

namespace Sparse.WellFormed

variable {m : Sparse α} (h : m.WellFormed) (hn : m.dims.count < wordLimit)

include h

theorem toWord_row (hn : m.dims.count < wordLimit) {r : Int} (hr : r ∈ m.rowIndices) :
    Checked.toWord r = .ok r.toNat := by
  obtain ⟨hnn, hlt⟩ := h.row_bounds r hr
  have hrows := Dims.rows_le_count h.positive
  rw [Checked.toWord_eq_ok]
  omega

include hn

theorem checkedRange_eq {col : Nat} (hc : col < m.dims.cols) :
    m.checkedRange col = .ok (columnStart m.colPtrs col, columnStart m.colPtrs (col + 1)) := by
  have hcols := Dims.cols_le_count h.positive
  have hcount := h.length_values_le
  exact h.pointers.checkedRange_eq (by omega) (by omega) hc

theorem checkedFind_eq {row col : Nat} (hc : col < m.dims.cols) :
    m.checkedFind row (columnStart m.colPtrs col) (columnStart m.colPtrs (col + 1)) =
      .ok (((m.column col).lookup (row : Int)).getD Entry.zero) := by
  have hstop : columnStart m.colPtrs (col + 1) ≤ _ := h.pointers.columnStart_le hc
  have hlength := h.pointers.length_columnSlice h.length_rowIndices hc
  have hslice : Checked.slice m.rowIndices (columnStart m.colPtrs col) (columnStart m.colPtrs (col + 1)) =
      .ok (columnSlice m.colPtrs m.rowIndices col) :=
    Checked.slice_eq_ok.mpr
      ⟨⟨h.pointers.columnStart_mono (Nat.le_succ col) hc, h.length_rowIndices ▸ hstop⟩, rfl⟩
  have hmem : ∀ r ∈ columnSlice m.colPtrs m.rowIndices col, r ∈ m.rowIndices := fun r hr =>
    List.mem_of_mem_drop (List.mem_of_mem_take hr)
  refine bind_eq_ok.mpr ⟨_, hslice,
    bind_eq_ok.mpr ⟨_, mapM_eq_ok fun r hr => h.toWord_row hn (hmem r hr), ?_⟩⟩
  rw [column, lookup_zip_eq fun r hr => (h.row_bounds r (hmem r hr)).1]
  cases hi : ((columnSlice m.colPtrs m.rowIndices col).map Int.toNat).idxOf? row with
  | none => rfl
  | some i =>
      obtain ⟨hlt, _, _⟩ := List.idxOf?_eq_some_iff.mp hi
      rw [List.length_map, hlength] at hlt
      have hcount := h.length_values_le
      have hposition : columnStart m.colPtrs col + i < m.values.length := by omega
      have hvalue : (columnSlice m.colPtrs m.values col)[i]? =
          some (m.values[columnStart m.colPtrs col + i]) := by
        simp [columnSlice, hlt]
      simp [hvalue]
      omega

theorem checkedGet_eq (row col : Nat) : m.checkedGet row col = .ok (m.get? row col) := by
  rw [checkedGet]
  split
  · rename_i hin
    have hc := (Dims.contains_iff.mp hin).2
    rw [get?_eq_some hin, h.checkedRange_eq hn hc]
    exact map_eq_ok.mpr ⟨_, h.checkedFind_eq hn hc, rfl⟩
  · rename_i hout
    rw [get?_eq_none (Bool.eq_false_iff.mpr hout)]

end Sparse.WellFormed

namespace Storage.WellFormed

variable {s : Storage α} (h : s.WellFormed) (hn : s.dims.count < wordLimit)

include h hn

theorem checkedGet_eq (row col : Nat) : s.checkedGet row col = .ok (s.get? row col) := by
  cases s with
  | dense m => exact Dense.WellFormed.checkedGet_eq h hn row col
  | diagonal m => rfl
  | sparse m => exact Sparse.WellFormed.checkedGet_eq h hn row col

theorem checkedEntry_eq {row col : Nat} (hr : row < s.dims.rows) (hc : col < s.dims.cols) :
    s.checkedEntry row col = .ok ((s.get? row col).getD Entry.zero) := by
  cases s with
  | dense m =>
      rw [h.get?_eq_some hr hc]
      exact Dense.WellFormed.checkedEntry_eq h hn hr hc
  | diagonal m => rfl
  | sparse m => exact map_eq_ok.mpr ⟨_, Sparse.WellFormed.checkedGet_eq h hn row col, rfl⟩

theorem checkedRow_eq {row : Nat} (hr : row ∈ List.range s.dims.rows) :
    (List.range s.dims.cols).mapM (s.checkedEntry row) =
      .ok ((List.range s.dims.cols).map fun col => (s.get? row col).getD Entry.zero) :=
  mapM_eq_ok fun _ hc => h.checkedEntry_eq hn (List.mem_range.mp hr) (List.mem_range.mp hc)

theorem checkedEntries_eq : s.checkedEntries = .ok s.entries :=
  mapM_eq_ok fun _ hr => h.checkedRow_eq hn hr

theorem checkedText_eq (precision : Option Nat) : s.checkedText precision = .ok (s.text precision) := by
  have hrow : ∀ row ∈ List.range s.dims.rows,
      rowText precision <$> (List.range s.dims.cols).mapM (s.checkedEntry row) =
        .ok (rowText precision ((List.range s.dims.cols).map fun col => (s.get? row col).getD Entry.zero)) :=
    fun row hr => map_eq_ok.mpr ⟨_, h.checkedRow_eq hn hr, rfl⟩
  rw [checkedText, mapM_eq_ok hrow, text, entries, List.map_map]
  rfl

end Storage.WellFormed

end StoredMatrix
