import Mathlib.Data.List.Sort
import StoredMatrix.Proofs.Expansion

/-!
# Compression

Compressing collects the non-zero entries of each column in the order of their rows and lays the
columns out side by side. What comes out is well-formed, and reads as what was compressed except
that every zero has become the positive one.
-/

namespace StoredMatrix

variable {α : Type}

/-! ## Entries in the order of their rows -/

/-- The rows ascend strictly. -/
def RowsAscend (entries : List (Nat × α)) : Prop := entries.Pairwise fun p q => p.1 < q.1

theorem RowsAscend.nodup_fst {entries : List (Nat × α)} (h : RowsAscend entries) :
    (entries.map Prod.fst).Nodup := by
  rw [List.nodup_iff_pairwise_ne, List.pairwise_map]
  exact h.imp Nat.ne_of_lt

namespace Sparse

variable [Element α]

/-- The entries of a column that are not zero, with their rows. -/
def nonzeroColumn (rows : Nat) (entry : Nat → α) : List (Nat × α) :=
  ((List.range rows).map fun row => (row, entry row)).filter fun (_, a) => Entry.isNonzero a

theorem nonzeroColumn_eq (rows : Nat) (entry : Nat → α) :
    nonzeroColumn rows entry =
      ((List.range rows).filter fun row => Entry.isNonzero (entry row)).map
        fun row => (row, entry row) := by
  rw [nonzeroColumn, List.filter_map]
  rfl

theorem mem_nonzeroColumn {rows : Nat} {entry : Nat → α} {row : Nat} {a : α} :
    (row, a) ∈ nonzeroColumn rows entry ↔
      row < rows ∧ entry row = a ∧ Entry.isNonzero a = true := by
  simp only [nonzeroColumn, List.mem_filter, List.mem_map, List.mem_range]
  constructor
  · rintro ⟨⟨_, hr, h⟩, hnz⟩
    obtain ⟨rfl, rfl⟩ := Prod.mk.inj h
    exact ⟨hr, rfl, hnz⟩
  · rintro ⟨hr, rfl, hnz⟩
    exact ⟨⟨row, hr, rfl⟩, hnz⟩

theorem rowsAscend_nonzeroColumn (rows : Nat) (entry : Nat → α) :
    RowsAscend (nonzeroColumn rows entry) := by
  refine List.Pairwise.filter _ ?_
  rw [List.pairwise_map]
  exact List.pairwise_lt_range

/-! ## Matrices made of columns -/

/-- The matrix with the given columns, each a list of rows with their entries. -/
def ofColumns (d : Dims) (columns : List (List (Nat × α))) : Sparse α where
  dims := d
  colPtrs := pointersTo columns
  rowIndices := columns.flatten.map fun entry => Int.ofNat entry.1
  values := columns.flatten.map Prod.snd
  maxColEntries := largest (columns.map List.length)

/-- The entries of a column, with natural numbers as rows. -/
def columnEntries (m : Sparse α) (col : Nat) : List (Nat × α) :=
  (m.column col).map fun entry => (entry.1.toNat, entry.2)

/-- The entries of all columns, with natural numbers as rows. -/
def columns (m : Sparse α) : List (List (Nat × α)) := (List.range m.dims.cols).map m.columnEntries

section ColumnEntries

variable {m : Sparse α} (h : m.WellFormed)

include h

theorem WellFormed.mem_columnEntries {row col : Nat} {a : α} :
    (row, a) ∈ m.columnEntries col ↔ ((row : Int), a) ∈ m.column col := by
  rw [columnEntries, List.mem_map]
  constructor
  · rintro ⟨⟨row', a'⟩, hmem, heq⟩
    obtain ⟨rfl, rfl⟩ := Prod.mk.inj heq
    rwa [Int.toNat_of_nonneg (h.row_bounds_column hmem).1]
  · exact fun hmem => ⟨_, hmem, rfl⟩

theorem WellFormed.nodup_fst_columnEntries {col : Nat} (hc : col < m.dims.cols) :
    ((m.columnEntries col).map Prod.fst).Nodup := by
  have hnodup := h.nodup_fst_column hc
  rw [List.nodup_iff_pairwise_ne, List.pairwise_map] at hnodup
  rw [columnEntries, List.map_map, List.nodup_iff_pairwise_ne, List.pairwise_map]
  refine hnodup.imp_of_mem ?_
  rintro ⟨row, a⟩ ⟨row', a'⟩ hmem hmem' hne heq
  obtain ⟨hnn, _⟩ := h.row_bounds_column hmem
  obtain ⟨hnn', _⟩ := h.row_bounds_column hmem'
  have heq : row.toNat = row'.toNat := heq
  exact hne (show row = row' by omega)

end ColumnEntries

section OfColumns

variable {d : Dims} {columns : List (List (Nat × α))}

omit [Element α] in
theorem columnSlice_ofColumns {β : Type} (f : Nat × α → β) {col : Nat} (hc : col < columns.length) :
    columnSlice (ofColumns d columns).colPtrs (columns.flatten.map f) col = columns[col].map f := by
  rw [columnSlice_map, ofColumns, columnSlice_pointersTo columns hc]

omit [Element α] in
theorem column_ofColumns {col : Nat} (hc : col < columns.length) :
    (ofColumns d columns).column col = columns[col].map fun entry => (Int.ofNat entry.1, entry.2) := by
  have hzip : (ofColumns d columns).rowIndices.zip (ofColumns d columns).values =
      columns.flatten.map fun entry => (Int.ofNat entry.1, entry.2) := by
    rw [ofColumns, List.zip_map']
  rw [column_eq_columnSlice, hzip, columnSlice_ofColumns _ hc]

theorem WellFormed.ofColumns (hp : d.Positive) (hl : columns.length = d.cols)
    (hrow : ∀ column ∈ columns, ∀ entry ∈ column, entry.1 < d.rows)
    (hdup : ∀ column ∈ columns, (column.map Prod.fst).Nodup)
    (hnz : ∃ column ∈ columns, ∃ entry ∈ column, Entry.isNonzero entry.2 = true) :
    (ofColumns d columns).WellFormed := by
  have hptr : PointersInto (pointersTo columns) d.cols columns.flatten.length :=
    hl ▸ pointersTo_pointersInto columns
  refine ⟨hp, by simpa only [Sparse.ofColumns, List.length_map] using hptr, ?_, ?_, ?_, ?_, ?_⟩
  · simp only [Sparse.ofColumns, List.length_map]
  · simp only [Sparse.ofColumns, List.forall_mem_map]
    intro entry hmem
    obtain ⟨column, hcol, hmem⟩ := List.mem_flatten.mp hmem
    exact ⟨Int.natCast_nonneg _, Int.ofNat_lt.mpr (hrow column hcol entry hmem)⟩
  · intro col hc
    have hc : col < columns.length := hl ▸ hc
    have hnodup := hdup columns[col] (List.getElem_mem hc)
    rw [Sparse.ofColumns, columnSlice_map, columnSlice_pointersTo columns hc]
    rw [List.nodup_iff_pairwise_ne, List.pairwise_map] at hnodup ⊢
    exact hnodup.imp fun hne heq => hne (Int.ofNat.inj heq)
  · obtain ⟨column, hcol, entry, hmem, hnz⟩ := hnz
    exact ⟨entry.2, List.mem_map_of_mem (List.mem_flatten_of_mem hcol hmem), hnz⟩
  · refine hptr.isGreatest_largest hp.cols_pos ?_
    apply List.ext_getElem
    · rw [List.length_map, List.length_map, List.length_range, hl]
    · intro col hc hc'
      rw [List.length_map, List.length_range] at hc'
      rw [List.length_map] at hc
      rw [List.getElem_map, List.getElem_map, List.getElem_range, hptr.columnWidth_eq hc',
        Int.toNat_natCast, ← hptr.length_columnSlice rfl hc', columnSlice_pointersTo columns hc]

end OfColumns

theorem WellFormed.ext {m n : Sparse α} (h : m.WellFormed) (h' : n.WellFormed)
    (hd : m.dims = n.dims) (hp : m.colPtrs = n.colPtrs) (hr : m.rowIndices = n.rowIndices)
    (hv : m.values = n.values) : m = n := by
  have hw := h.widest_column
  rw [hd, hp] at hw
  have hmax := Int.ofNat.inj (hw.unique h'.widest_column)
  cases m
  cases n
  cases hd
  cases hp
  cases hr
  cases hv
  cases hmax
  rfl

/-- A well-formed matrix is made up of its columns. -/
theorem WellFormed.ofColumns_columns {m : Sparse α} (h : m.WellFormed) :
    Sparse.ofColumns m.dims m.columns = m := by
  have hflat : m.columns.flatten = (m.rowIndices.zip m.values).map fun entry => (entry.1.toNat, entry.2) := by
    rw [columns, ← List.flatMap_def, ← h.flatMap_column, List.map_flatMap]
    rfl
  have hwf : (Sparse.ofColumns m.dims m.columns).WellFormed := by
    refine WellFormed.ofColumns h.positive (by rw [columns, List.length_map, List.length_range]) ?_ ?_ ?_
    · simp only [columns, List.forall_mem_map]
      rintro col _ ⟨row, a⟩ hmem
      exact Int.ofNat_lt.mp (h.row_bounds_column (h.mem_columnEntries.mp hmem)).2
    · simp only [columns, List.forall_mem_map, List.mem_range]
      exact fun col hc => h.nodup_fst_columnEntries hc
    · obtain ⟨a, ha, hnz⟩ := h.exists_nonzero
      obtain ⟨col, hc, row, _, hmem⟩ := h.exists_column_of_mem ha
      exact ⟨_, List.mem_map_of_mem (List.mem_range.mpr hc), (row, a), h.mem_columnEntries.mpr hmem, hnz⟩
  -- the cached maximum follows, so only the buffers are left to compare
  refine hwf.ext h rfl ?_ ?_ ?_
  · have hptr : PointersInto m.colPtrs m.dims.cols (m.rowIndices.zip m.values).length :=
      h.length_zip.symm ▸ h.pointers
    rw [← hptr.pointersTo_columns]
    simp only [Sparse.ofColumns, pointersTo, columns, columnEntries, List.map_map, Function.comp_def,
      List.length_map, column_eq_columnSlice]
  · simp only [Sparse.ofColumns, hflat, List.map_map]
    conv => rhs; rw [← List.map_fst_zip (Nat.le_of_eq h.length_rowIndices)]
    refine List.map_congr_left fun entry hmem => ?_
    exact Int.toNat_of_nonneg (h.row_bounds entry.1 (List.of_mem_zip hmem).1).1
  · simp only [Sparse.ofColumns, hflat, List.map_map]
    exact List.map_snd_zip (Nat.le_of_eq h.length_rowIndices.symm)

/-! ## The two passes -/

/-- The non-zero entries of each column. -/
def nonzeroColumns (d : Dims) (entry : Nat → Nat → α) : List (List (Nat × α)) :=
  (List.range d.cols).map fun col => nonzeroColumn d.rows (entry · col)

theorem countColumn_eq (rows : Nat) (entry : Nat → α) :
    countColumn rows entry = (nonzeroColumn rows entry).length := by
  rw [countColumn, nonzeroColumn_eq, List.length_map]

theorem foldl_addCount (rows : Nat) (entry : Nat → Nat → α) (cols : List Nat) (counts : Nat × Nat) :
    cols.foldl (addCount rows entry) counts =
      (counts.1 + (cols.flatMap fun col => nonzeroColumn rows (entry · col)).length,
        (cols.map fun col => (nonzeroColumn rows (entry · col)).length).foldl max counts.2) := by
  induction cols generalizing counts with
  | nil => rfl
  | cons col cols ih =>
      rw [List.foldl_cons, ih, addCount, countColumn_eq, List.flatMap_cons, List.length_append,
        List.map_cons, List.foldl_cons, Nat.add_assoc]

/-- The first pass counts what the columns list. -/
theorem countColumns_eq (d : Dims) (entry : Nat → Nat → α) :
    countColumns d entry =
      ((nonzeroColumns d entry).flatten.length, largest ((nonzeroColumns d entry).map List.length)) := by
  rw [countColumns, foldl_addCount, Nat.zero_add, nonzeroColumns, ← List.flatMap_def, List.map_map,
    largest]
  rfl

/-- The second buffers hold what the first ones hold, followed by the given entries. -/
structure Filling.Gains (f g : Filling α) (entries : List (Nat × α)) : Prop where
  rowIndices_eq : g.rowIndices.toList =
    f.rowIndices.toList ++ entries.map fun entry => Int.ofNat entry.1
  values_eq : g.values.toList = f.values.toList ++ entries.map Prod.snd

namespace Filling

omit [Element α] in
theorem Gains.refl (f : Filling α) : f.Gains f [] := ⟨by simp, by simp⟩

omit [Element α] in
theorem Gains.trans {f g k : Filling α} {entries entries' : List (Nat × α)}
    (h : f.Gains g entries) (h' : g.Gains k entries') : f.Gains k (entries ++ entries') := by
  constructor
  · rw [h'.rowIndices_eq, h.rowIndices_eq, List.map_append, List.append_assoc]
  · rw [h'.values_eq, h.values_eq, List.map_append, List.append_assoc]

omit [Element α] in
theorem Gains.length_values {f g : Filling α} {entries : List (Nat × α)} (h : f.Gains g entries) :
    g.values.size = f.values.size + entries.length := by
  rw [← Array.length_toList, h.values_eq, List.length_append, List.length_map, Array.length_toList]

theorem addEntry_gains (f : Filling α) (row : Nat) (a : α) :
    f.Gains (f.addEntry row a) (if Entry.isNonzero a then [(row, a)] else []) := by
  rw [addEntry, Entry.isNonzero]
  cases Entry.isZero a with
  | true => exact .refl f
  | false => exact ⟨Array.toList_push, Array.toList_push⟩

theorem colPtrs_addEntry (f : Filling α) (row : Nat) (a : α) :
    (f.addEntry row a).colPtrs = f.colPtrs := by
  rw [addEntry]
  split <;> rfl

theorem foldl_addEntry (entry : Nat → α) (rows : List Nat) (f : Filling α) :
    (rows.foldl (fun f row => f.addEntry row (entry row)) f).colPtrs = f.colPtrs ∧
    f.Gains (rows.foldl (fun f row => f.addEntry row (entry row)) f)
      ((rows.map fun row => (row, entry row)).filter fun (_, a) => Entry.isNonzero a) := by
  induction rows generalizing f with
  | nil => exact ⟨rfl, .refl f⟩
  | cons row rows ih =>
      obtain ⟨hptr, hgain⟩ := ih (f.addEntry row (entry row))
      refine ⟨hptr.trans (f.colPtrs_addEntry row (entry row)), ?_⟩
      have hgain := (f.addEntry_gains row (entry row)).trans hgain
      rw [List.map_cons, List.filter_cons]
      cases hnz : Entry.isNonzero (entry row) <;> simpa [hnz] using hgain

theorem colPtrs_addColumn (f : Filling α) (rows : Nat) (entry : Nat → α) :
    (f.addColumn rows entry).colPtrs = f.colPtrs.push (Int.ofNat f.values.size) :=
  (foldl_addEntry entry (List.range rows) _).1

theorem addColumn_gains (f : Filling α) (rows : Nat) (entry : Nat → α) :
    f.Gains (f.addColumn rows entry) (nonzeroColumn rows entry) :=
  have hgain := (foldl_addEntry entry (List.range rows)
    { f with colPtrs := f.colPtrs.push (Int.ofNat f.values.size) }).2
  ⟨hgain.rowIndices_eq, hgain.values_eq⟩

theorem foldl_addColumn (rows : Nat) (entry : Nat → Nat → α) (cols : List Nat) (f : Filling α) :
    (cols.foldl (fun f col => f.addColumn rows (entry · col)) f).colPtrs.toList ++
      [Int.ofNat (f.values.size + (cols.flatMap fun col => nonzeroColumn rows (entry · col)).length)] =
      f.colPtrs.toList ++ (runningTotals f.values.size
        (cols.map fun col => (nonzeroColumn rows (entry · col)).length)).map Int.ofNat ∧
    f.Gains (cols.foldl (fun f col => f.addColumn rows (entry · col)) f)
      (cols.flatMap fun col => nonzeroColumn rows (entry · col)) := by
  induction cols generalizing f with
  | nil => exact ⟨rfl, .refl f⟩
  | cons col cols ih =>
      have hcolumn := f.addColumn_gains rows (entry · col)
      obtain ⟨hptr, hgain⟩ := ih (f.addColumn rows (entry · col))
      rw [hcolumn.length_values, colPtrs_addColumn, Array.toList_push, List.append_assoc] at hptr
      refine ⟨?_, hcolumn.trans hgain⟩
      rw [List.foldl_cons, List.flatMap_cons, List.length_append, ← Nat.add_assoc, hptr, List.map_cons,
        runningTotals, List.map_cons, List.singleton_append]

end Filling

/-- The second pass lays the columns out side by side, each with a pointer to its start. -/
theorem fillColumns_spec (d : Dims) (entry : Nat → Nat → α) :
    (fillColumns d entry).colPtrs.toList ++ [Int.ofNat (nonzeroColumns d entry).flatten.length] =
      pointersTo (nonzeroColumns d entry) ∧
    (fillColumns d entry).rowIndices.toList =
      (nonzeroColumns d entry).flatten.map (fun entry => Int.ofNat entry.1) ∧
    (fillColumns d entry).values.toList = (nonzeroColumns d entry).flatten.map Prod.snd := by
  obtain ⟨hptr, hgain⟩ := Filling.foldl_addColumn d.rows entry (List.range d.cols) ⟨#[], #[], #[]⟩
  rw [pointersTo, nonzeroColumns, ← List.flatMap_def, List.map_map]
  refine ⟨?_, hgain.rowIndices_eq, hgain.values_eq⟩
  simpa [fillColumns, Function.comp_def] using hptr

/-! ## What compressing yields -/

variable {arg : String} {d : Dims} {entry : Nat → Nat → α} {m : Sparse α}

theorem length_nonzeroColumns : (nonzeroColumns d entry).length = d.cols := by
  rw [nonzeroColumns, List.length_map, List.length_range]

theorem flatten_nonzeroColumns_eq_nil :
    (nonzeroColumns d entry).flatten = [] ↔
      ∀ row < d.rows, ∀ col < d.cols, Entry.isZero (entry row col) = true := by
  simp only [nonzeroColumns, List.flatten_eq_nil_iff, List.forall_mem_map, List.mem_range]
  constructor
  · intro h row hr col hc
    by_contra hnz
    have hmem : (row, entry row col) ∈ nonzeroColumn d.rows (entry · col) :=
      mem_nonzeroColumn.mpr ⟨hr, rfl, by rw [Entry.isNonzero, Bool.eq_false_iff.mpr hnz]; rfl⟩
    rw [h col hc] at hmem
    cases hmem
  -- a column without non-zero entries has nothing to collect
  · intro h col hc
    refine List.eq_nil_iff_forall_not_mem.mpr fun ⟨row, a⟩ hmem => ?_
    obtain ⟨hr, rfl, hnz⟩ := mem_nonzeroColumn.mp hmem
    rw [Entry.isNonzero, h row hr col hc] at hnz
    cases hnz

/-- Compressing is refused if there is nothing to store, and builds the columns otherwise. -/
theorem compress_eq : compress arg d entry =
    if ∀ row < d.rows, ∀ col < d.cols, Entry.isZero (entry row col) = true then
      .error (.allZero arg)
    else .ok (Sparse.ofColumns d (nonzeroColumns d entry)) := by
  obtain ⟨hptr, hrow, hval⟩ := fillColumns_spec d entry
  have hpasses : compress arg d entry =
      (ensure ((nonzeroColumns d entry).flatten.length ≠ 0) (.allZero arg) >>= fun _ =>
        .ok (Sparse.ofColumns d (nonzeroColumns d entry))) := by
    rw [compress, countColumns_eq, Sparse.ofColumns, ← hptr, ← hrow, ← hval]
    rfl
  by_cases h : (nonzeroColumns d entry).flatten = []
  · rw [if_pos (flatten_nonzeroColumns_eq_nil.mp h), hpasses, h]
    rfl
  · rw [if_neg (mt flatten_nonzeroColumns_eq_nil.mpr h), hpasses,
      decide_eq_true (mt List.length_eq_zero_iff.mp h)]
    rfl

theorem exists_nonzero_of_not (h : ¬∀ row < d.rows, ∀ col < d.cols, Entry.isZero (entry row col) = true) :
    ∃ row < d.rows, ∃ col < d.cols, Entry.isNonzero (entry row col) = true := by
  simp only [not_forall] at h
  obtain ⟨row, hr, col, hc, hnz⟩ := h
  exact ⟨row, hr, col, hc, by rw [Entry.isNonzero, Bool.eq_false_iff.mpr hnz]; rfl⟩

section Compressed

variable (h : compress arg d entry = .ok m)

include h

theorem compress_eq_ofColumns : m = Sparse.ofColumns d (nonzeroColumns d entry) := by
  rw [compress_eq] at h
  split at h
  · cases h
  · exact (Except.ok.inj h).symm

theorem dims_compress : m.dims = d := by
  rw [compress_eq_ofColumns h, Sparse.ofColumns]

theorem column_compress {col : Nat} (hc : col < d.cols) :
    m.column col =
      (nonzeroColumn d.rows (entry · col)).map fun entry => (Int.ofNat entry.1, entry.2) := by
  rw [compress_eq_ofColumns h, column_ofColumns (by rwa [length_nonzeroColumns])]
  simp only [nonzeroColumns, List.getElem_map, List.getElem_range]

theorem mem_column_compress {row col : Nat} (hc : col < d.cols) {a : α} :
    ((row : Int), a) ∈ m.column col ↔
      row < d.rows ∧ entry row col = a ∧ Entry.isNonzero a = true := by
  rw [column_compress h hc, List.mem_map]
  refine Iff.trans ?_ (@mem_nonzeroColumn α _ d.rows (entry · col) row a)
  constructor
  · rintro ⟨⟨row', a'⟩, hmem, heq⟩
    obtain ⟨hrow, rfl⟩ := Prod.mk.inj heq
    rwa [← Int.ofNat.inj hrow]
  · exact fun hmem => ⟨(row, a), hmem, rfl⟩

theorem WellFormed.compress (hp : d.Positive) : m.WellFormed := by
  have hnz : ∃ row < d.rows, ∃ col < d.cols, Entry.isNonzero (entry row col) = true := by
    refine exists_nonzero_of_not fun hzero => ?_
    rw [compress_eq, if_pos hzero] at h
    cases h
  obtain ⟨row, hr, col, hc, hnz⟩ := hnz
  rw [compress_eq_ofColumns h]
  refine WellFormed.ofColumns hp length_nonzeroColumns ?_ ?_ ?_
  · simp only [nonzeroColumns, List.forall_mem_map]
    exact fun col _ entry hmem => (mem_nonzeroColumn.mp hmem).1
  · simp only [nonzeroColumns, List.forall_mem_map]
    exact fun col _ => (rowsAscend_nonzeroColumn _ _).nodup_fst
  · exact ⟨_, List.mem_map_of_mem (List.mem_range.mpr hc), _, mem_nonzeroColumn.mpr ⟨hr, rfl, hnz⟩, hnz⟩

end Compressed

theorem WellFormed.ofGrid {g : Grid α} (h : ofGrid g = .ok m) : m.WellFormed := by
  obtain ⟨d, hd, hm⟩ := bind_eq_ok.mp h
  exact WellFormed.compress hm (Grid.dims_eq_ok.mp hd).2.1

theorem WellFormed.toComplex (h : m.WellFormed) : m.toComplex.WellFormed where
  positive := h.positive
  pointers := by simpa only [Sparse.toComplex, promoteAll, List.length_map] using h.pointers
  length_rowIndices := by
    simpa only [Sparse.toComplex, promoteAll, List.length_map] using h.length_rowIndices
  row_bounds := h.row_bounds
  nodup_column := h.nodup_column
  exists_nonzero := by
    obtain ⟨a, ha, hnz⟩ := h.exists_nonzero
    refine ⟨Element.promote a, List.mem_map_of_mem ha, ?_⟩
    rw [Entry.isNonzero] at hnz ⊢
    exact (congrArg not (Element.isZero_promote a)).trans hnz
  widest_column := h.widest_column

theorem WellFormed.ofRealGrid {g : Grid Binary64} {m : Sparse Complex} (h : ofRealGrid g = .ok m) :
    m.WellFormed := by
  obtain ⟨n, hn, hm⟩ := bind_eq_ok.mp h
  exact pure_eq_ok.mp hm ▸ (WellFormed.ofGrid hn).toComplex

theorem WellFormed.ofSplitGrids {re im : Grid Binary64} {m : Sparse Complex}
    (h : ofSplitGrids re im = .ok m) : m.WellFormed := by
  obtain ⟨d, hd, hm⟩ := bind_eq_ok.mp h
  obtain ⟨hre, _⟩ := Grid.pairedDims_eq_ok.mp hd
  exact WellFormed.compress hm (Grid.dims_eq_ok.mp hre).2.1

/-! ## Canonical matrices -/

/-- The rows ascend strictly in every column, and no zero is stored. -/
structure Canonical (m : Sparse α) : Prop where
  rows_ascend : ∀ col < m.dims.cols, (columnSlice m.colPtrs m.rowIndices col).Pairwise (· < ·)
  nonzero : ∀ a ∈ m.values, Entry.isNonzero a = true

theorem Canonical.compress (hp : d.Positive) (h : compress arg d entry = .ok m) : m.Canonical := by
  have hwf := WellFormed.compress h hp
  have hd := dims_compress h
  constructor
  · intro col hc
    rw [← hwf.map_fst_column, column_compress h (hd ▸ hc), List.map_map, List.pairwise_map]
    exact (rowsAscend_nonzeroColumn _ _).imp fun hlt => Int.ofNat_lt.mpr hlt
  · intro a ha
    obtain ⟨col, hc, row, _, hmem⟩ := hwf.exists_column_of_mem ha
    exact ((mem_column_compress h (hd ▸ hc)).mp hmem).2.2

end Sparse

/-- The entry itself, or the one zero that fills empty positions if it is zero of either sign. -/
def Entry.normalize [Entry α] (a : α) : α := if Entry.isNonzero a then a else Entry.zero

theorem Entry.normalize_of_isNonzero [Entry α] {a : α} (h : Entry.isNonzero a = true) :
    Entry.normalize a = a := if_pos h

theorem Entry.normalize_of_isZero [Entry α] {a : α} (h : Entry.isZero a = true) :
    Entry.normalize a = Entry.zero := by
  rw [Entry.normalize, Entry.isNonzero, h]
  rfl

/-- Compressing changes no entry but the zeros. -/
theorem Sparse.get?_compress [Element α] {arg : String} {d : Dims} {entry : Nat → Nat → α}
    {m : Sparse α} (hp : d.Positive) (h : compress arg d entry = .ok m) {row col : Nat}
    (hr : row < d.rows) (hc : col < d.cols) :
    m.get? row col = some (Entry.normalize (entry row col)) := by
  have hwf := WellFormed.compress h hp
  have hd := dims_compress h
  by_cases hnz : Entry.isNonzero (entry row col) = true
  · rw [Entry.normalize_of_isNonzero hnz]
    exact hwf.get?_of_mem (hd ▸ hc) ((mem_column_compress h hc).mpr ⟨hr, rfl, hnz⟩)
  · rw [Entry.normalize_of_isZero (by simpa [Entry.isNonzero] using hnz)]
    refine get?_of_not_mem (Dims.contains_iff.mpr (hd.symm ▸ ⟨hr, hc⟩)) fun a hmem => hnz ?_
    obtain ⟨_, rfl, hnz⟩ := (mem_column_compress h hc).mp hmem
    exact hnz

end StoredMatrix
