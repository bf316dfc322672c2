import StoredMatrix.Proofs.Reachability
import StoredMatrix.Proofs.StructuralEquality

/-!
# Between dense and sparse

Compressing a dense matrix stores its non-zero entries in the order of their positions, and
spreading the result out loses nothing but the signs of zeros. Spreading a sparse matrix out and
compressing it again sorts its columns and drops the zeros that it stores.
-/

namespace StoredMatrix

variable {α : Type}

/-! ## Non-zero positions -/

/-- All positions, column by column. -/
def Dims.positions (d : Dims) : List (Nat × Nat) :=
  (List.range d.cols).flatMap fun col => (List.range d.rows).map fun row => (row, col)

/-- The positions of entries that are not zero, column by column. -/
def Dense.nonzeroPositions [Element α] (m : Dense α) : List (Nat × Nat) :=
  m.dims.positions.filter fun (row, col) => (m.get? row col).any Entry.isNonzero

/-- The positions of stored entries, column by column in the order in which they are stored. -/
def Sparse.storedPositions (s : Sparse α) : List (Nat × Nat) :=
  (List.range s.dims.cols).flatMap fun col => (s.column col).map fun (row, _) => (row.toNat, col)

/-- What a sparse matrix stores are the non-zero entries of a dense one, column by column. -/
structure Dense.CompressesTo [Element α] (m : Dense α) (s : Sparse α) : Prop where
  dims_eq : s.dims = m.dims
  storedPositions_eq : s.storedPositions = m.nonzeroPositions
  rowIndices_eq : s.rowIndices = m.nonzeroPositions.map fun (row, _) => (row : Int)
  values_eq : s.values.map some = m.nonzeroPositions.map fun (row, col) => m.get? row col
  colPtrs_eq : s.colPtrs = (List.range (m.dims.cols + 1)).map fun col =>
    ((m.nonzeroPositions.countP fun (_, c) => c < col : Nat) : Int)
  widest_column : IsGreatest {n | ∃ col < m.dims.cols,
    (m.nonzeroPositions.countP fun (_, c) => c = col) = n} s.maxColEntries

/-! ## Counting by columns -/

/-- Positions whose columns ascend, given by the rows of each column. -/
def byColumn (cols : Nat) (rows : Nat → List Nat) : List (Nat × Nat) :=
  (List.range cols).flatMap fun col => (rows col).map fun row => (row, col)

theorem byColumn_add (c k : Nat) (rows : Nat → List Nat) :
    byColumn (c + k) rows = byColumn c rows ++
      (List.range k).flatMap fun i => (rows (c + i)).map fun row => (row, c + i) := by
  rw [byColumn, List.range_add, List.flatMap_append, List.flatMap_map]
  rfl

theorem snd_lt_of_mem_byColumn {cols : Nat} {rows : Nat → List Nat} {p : Nat × Nat}
    (h : p ∈ byColumn cols rows) : p.2 < cols := by
  obtain ⟨col, hc, hp⟩ := List.mem_flatMap.mp h
  obtain ⟨row, _, rfl⟩ := List.mem_map.mp hp
  exact List.mem_range.mp hc

theorem length_byColumn (cols : Nat) (rows : Nat → List Nat) :
    (byColumn cols rows).length = ((List.range cols).flatMap rows).length := by
  simp only [byColumn, List.length_flatMap, List.length_map]

theorem countP_byColumn_lt {cols col : Nat} (rows : Nat → List Nat) (h : col ≤ cols) :
    (byColumn cols rows).countP (fun p => p.2 < col) = ((List.range col).flatMap rows).length := by
  obtain ⟨k, rfl⟩ := Nat.exists_eq_add_of_le h
  have hbefore : (byColumn col rows).countP (fun p => p.2 < col) = (byColumn col rows).length :=
    List.countP_eq_length.mpr fun p hp => decide_eq_true (snd_lt_of_mem_byColumn hp)
  rw [byColumn_add, List.countP_append, hbefore, length_byColumn, List.countP_eq_zero.mpr, Nat.add_zero]
  intro p hp
  obtain ⟨i, _, hp⟩ := List.mem_flatMap.mp hp
  obtain ⟨row, _, rfl⟩ := List.mem_map.mp hp
  simp

theorem countP_byColumn_eq {cols col : Nat} (rows : Nat → List Nat) (h : col < cols) :
    (byColumn cols rows).countP (fun p => p.2 = col) = (rows col).length := by
  -- the positions are cut before and after the column
  obtain ⟨k, rfl⟩ := Nat.exists_eq_add_of_lt h
  have hbefore : (byColumn col rows).countP (fun p => p.2 = col) = 0 :=
    List.countP_eq_zero.mpr fun p hp hcol =>
      Nat.ne_of_lt (snd_lt_of_mem_byColumn hp) (of_decide_eq_true hcol)
  rw [Nat.add_assoc, byColumn_add, List.countP_append, hbefore, Nat.zero_add, List.range_succ_eq_map,
    List.flatMap_cons, List.countP_append, Nat.add_zero, List.countP_eq_length.mpr,
    List.countP_eq_zero.mpr, Nat.add_zero, List.length_map]
  · intro p hp
    obtain ⟨i, hi, hp⟩ := List.mem_flatMap.mp hp
    obtain ⟨j, _, rfl⟩ := List.mem_map.mp hi
    obtain ⟨row, _, rfl⟩ := List.mem_map.mp hp
    simp
  · intro p hp
    obtain ⟨row, _, rfl⟩ := List.mem_map.mp hp
    simp

/-! ## From dense to sparse -/

variable [Element α]

namespace Dense

/-- The rows of a column in which an entry is not zero. -/
def nonzeroRows (m : Dense α) (col : Nat) : List Nat :=
  (List.range m.dims.rows).filter fun row => Entry.isNonzero (m.entry row col)

theorem flatten_nonzeroColumns (m : Dense α) :
    (Sparse.nonzeroColumns m.dims m.entry).flatten =
      (byColumn m.dims.cols m.nonzeroRows).map fun (row, col) => (row, m.entry row col) := by
  rw [Sparse.nonzeroColumns, ← List.flatMap_def, byColumn, List.map_flatMap]
  refine List.flatMap_congr fun col _ => ?_
  rw [Sparse.nonzeroColumn_eq, List.map_map]
  rfl

namespace WellFormed

variable {m : Dense α} (h : m.WellFormed)

include h

theorem forall_mem_data {P : α → Prop} :
    (∀ a ∈ m.data, P a) ↔ ∀ row < m.dims.rows, ∀ col < m.dims.cols, P (m.entry row col) := by
  constructor
  · exact fun hall row hr col hc => hall _ (List.mem_of_getElem? (h.getElem?_offset hr hc))
  · intro hall a ha
    obtain ⟨i, hi⟩ := List.getElem?_of_mem ha
    obtain ⟨hlt, _⟩ := List.getElem?_eq_some_iff.mp hi
    obtain ⟨row, hr, col, hc, rfl⟩ := Dims.exists_offset_eq (h.length_data ▸ hlt)
    rw [h.getElem?_offset hr hc, Option.some.injEq] at hi
    exact hi ▸ hall row hr col hc

theorem isZero_iff :
    m.isZero = true ↔ ∀ row < m.dims.rows, ∀ col < m.dims.cols, Entry.isZero (m.entry row col) = true := by
  rw [isZero, List.all_eq_true, h.forall_mem_data]

theorem nonzeroPositions_eq : m.nonzeroPositions = byColumn m.dims.cols m.nonzeroRows := by
  rw [nonzeroPositions, Dims.positions, List.filter_flatMap, byColumn]
  refine List.flatMap_congr fun col hc => ?_
  rw [List.filter_map, nonzeroRows]
  congr 1
  refine List.filter_congr fun row hr => ?_
  simp only [Function.comp_apply, h.get?_eq_some (List.mem_range.mp hr) (List.mem_range.mp hc),
    Option.any_some]

theorem toSparse_eq : m.toSparse =
    if m.isZero then .error (.allZero "data")
    else .ok (Sparse.ofColumns m.dims (Sparse.nonzeroColumns m.dims m.entry)) := by
  rw [Dense.toSparse, Sparse.compress_eq]
  simp only [h.isZero_iff]

theorem toSparse_eq_error_iff : m.toSparse = .error (.allZero "data") ↔ m.isZero = true := by
  rw [h.toSparse_eq]
  split
  · exact ⟨fun _ => ‹_›, fun _ => rfl⟩
  · exact ⟨nofun, fun hz => absurd hz ‹_›⟩

section Compressed

variable {s : Sparse α} (hs : m.toSparse = .ok s)

include hs

theorem storedPositions_toSparse : s.storedPositions = m.nonzeroPositions := by
  rw [Sparse.storedPositions, h.nonzeroPositions_eq, byColumn, Sparse.dims_compress hs]
  refine List.flatMap_congr fun col hc => ?_
  rw [Sparse.column_compress hs (List.mem_range.mp hc), Sparse.nonzeroColumn_eq, List.map_map,
    List.map_map]
  rfl

theorem rowIndices_toSparse :
    s.rowIndices = m.nonzeroPositions.map fun (row, _) => (row : Int) := by
  rw [Sparse.compress_eq_ofColumns hs, Sparse.ofColumns, flatten_nonzeroColumns,
    h.nonzeroPositions_eq, List.map_map]
  rfl

theorem values_toSparse :
    s.values.map some = m.nonzeroPositions.map fun (row, col) => m.get? row col := by
  rw [Sparse.compress_eq_ofColumns hs, Sparse.ofColumns, flatten_nonzeroColumns,
    h.nonzeroPositions_eq, List.map_map, List.map_map]
  refine List.map_congr_left fun p hp => ?_
  obtain ⟨col, hc, hp⟩ := List.mem_flatMap.mp hp
  obtain ⟨row, hr, rfl⟩ := List.mem_map.mp hp
  exact (h.get?_eq_some (List.mem_range.mp (List.mem_filter.mp hr).1) (List.mem_range.mp hc)).symm

theorem getElem?_colPtrs_toSparse {col : Nat} (hc : col ≤ m.dims.cols) :
    s.colPtrs[col]? = some ((m.nonzeroPositions.countP fun p => p.2 < col : Nat) : Int) := by
  rw [Sparse.compress_eq_ofColumns hs, Sparse.ofColumns,
    getElem?_pointersTo _ (by rwa [Sparse.length_nonzeroColumns]), h.nonzeroPositions_eq,
    countP_byColumn_lt _ hc, Sparse.nonzeroColumns, ← List.map_take, List.take_range,
    Nat.min_eq_left hc, ← List.flatMap_def]
  simp only [Sparse.nonzeroColumn_eq, List.length_flatMap, List.length_map, nonzeroRows]

theorem colPtrs_toSparse : s.colPtrs = (List.range (m.dims.cols + 1)).map fun col =>
    ((m.nonzeroPositions.countP fun p => p.2 < col : Nat) : Int) := by
  apply List.ext_getElem?
  intro col
  rcases Nat.lt_or_ge m.dims.cols col with hc | hc
  -- past the pointer after the last column neither list has anything
  · rw [List.getElem?_eq_none, List.getElem?_eq_none]
    · rw [List.length_map, List.length_range]
      exact hc
    · rw [Sparse.compress_eq_ofColumns hs, Sparse.ofColumns, length_pointersTo,
        Sparse.length_nonzeroColumns]
      exact hc
  · rw [h.getElem?_colPtrs_toSparse hs hc, List.getElem?_map,
      List.getElem?_range (Nat.lt_succ_of_le hc)]
    rfl

theorem widest_column_toSparse : IsGreatest {n | ∃ col < m.dims.cols,
    (m.nonzeroPositions.countP fun p => p.2 = col) = n} s.maxColEntries := by
  have hset : {n | ∃ col < m.dims.cols, (m.nonzeroPositions.countP fun p => p.2 = col) = n} =
      {n | n ∈ (Sparse.nonzeroColumns m.dims m.entry).map List.length} := by
    ext n
    simp only [Set.mem_ofPred_eq, Sparse.nonzeroColumns, List.map_map, List.mem_map, List.mem_range]
    refine exists_congr fun col => and_congr_right fun hc => ?_
    rw [h.nonzeroPositions_eq, countP_byColumn_eq _ hc, Function.comp_apply,
      Sparse.nonzeroColumn_eq, List.length_map]
    rfl
  rw [Sparse.compress_eq_ofColumns hs, Sparse.ofColumns]
  refine hset ▸ largest_isGreatest ?_
  rw [ne_eq, List.map_eq_nil_iff, ← List.length_eq_zero_iff, Sparse.length_nonzeroColumns]
  exact Nat.ne_of_gt h.positive.cols_pos

theorem compressesTo : m.CompressesTo s where
  dims_eq := Sparse.dims_compress hs
  storedPositions_eq := h.storedPositions_toSparse hs
  rowIndices_eq := h.rowIndices_toSparse hs
  values_eq := h.values_toSparse hs
  colPtrs_eq := h.colPtrs_toSparse hs
  widest_column := h.widest_column_toSparse hs

end Compressed

theorem get?_toDense_of_toSparse {s : Sparse α} (hs : m.toSparse = .ok s) {row col : Nat}
    (hr : row < m.dims.rows) (hc : col < m.dims.cols) :
    s.toDense.get? row col = some (Entry.normalize (m.entry row col)) := by
  have hd := Sparse.dims_compress hs
  rw [(h.toSparse hs).get?_toDense (hd ▸ hr) (hd ▸ hc), Sparse.get?_compress h.positive hs hr hc]

theorem toDense_eq_iff {s : Sparse α} (hs : m.toSparse = .ok s) :
    s.toDense = m ↔ ∀ a ∈ m.data, Entry.isZero a = true → a = Entry.zero := by
  have hd : s.toDense.dims = m.dims := Sparse.dims_compress hs
  have hwf : s.toDense.WellFormed := (h.toSparse hs).toDense
  rw [h.forall_mem_data]
  constructor
  · intro heq row hr col hc hz
    have hget := h.get?_toDense_of_toSparse hs hr hc
    rw [heq, h.get?_eq_some hr hc, Entry.normalize_of_isZero hz] at hget
    exact Option.some.inj hget
  · intro hzero
    refine hwf.ext h hd fun row hr col hc => ?_
    rw [hd] at hr hc
    rw [h.get?_toDense_of_toSparse hs hr hc, h.get?_eq_some hr hc]
    cases hz : Entry.isZero (m.entry row col) with
    | true => rw [Entry.normalize_of_isZero hz, hzero row hr col hc hz]
    | false => rw [Entry.normalize_of_isNonzero (by rw [Entry.isNonzero, hz]; rfl)]

end WellFormed

end Dense

/-- Compressing is exact, and its round trip loses nothing but the signs of zeros. -/
theorem Dense.toSparse_exact {m : Dense α} (h : (Storage.dense m).Reachable) :
    (m.toSparse = .error (.allZero "data") ↔ m.isZero = true) ∧
    (m.isZero = false → ∃ s, m.toSparse = .ok s ∧ m.CompressesTo s ∧ s.toDense.dims = m.dims ∧
      (∀ row < m.dims.rows, ∀ col < m.dims.cols, ∃ a, m.get? row col = some a ∧
        s.toDense.get? row col = some (if Entry.isNonzero a then a else Entry.zero)) ∧
      (Storage.structEq (.dense s.toDense) (.dense m) = true ↔
        ∀ a ∈ m.data, Entry.isZero a = true → a = Entry.zero)) := by
  have hwf : m.WellFormed := h.wellFormed
  refine ⟨hwf.toSparse_eq_error_iff, fun hz => ?_⟩
  obtain ⟨s, hs⟩ : ∃ s, m.toSparse = .ok s := by
    rw [hwf.toSparse_eq, hz]
    exact ⟨_, rfl⟩
  have hwf' : s.toDense.WellFormed := (hwf.toSparse hs).toDense
  refine ⟨s, hs, hwf.compressesTo hs, Sparse.dims_compress hs, fun row hr col hc => ?_, ?_⟩
  · exact ⟨_, hwf.get?_eq_some hr hc, hwf.get?_toDense_of_toSparse hs hr hc⟩
  · rw [Storage.structEq_iff (a := .dense _) (b := .dense _) hwf' hwf, Storage.dense.injEq,
      hwf.toDense_eq_iff hs]

/-- Of its two zeros one is negative, and of its two other entries one is a NaN. -/
def signedZeroSample : Dense Binary64 where
  dims := ⟨2, 2⟩
  data := [⟨0x8000000000000000⟩, .nan, .zero, .one]

theorem reachable_signedZeroSample : (Matrix.real (.dense signedZeroSample)).Reachable :=
  .build (.real (.denseColumnMajor signedZeroSample.data ⟨2, 2⟩)) (by decide +kernel)

theorem toSparse_exact_signedZeroSample :
    (Storage.dense signedZeroSample).Reachable ∧ signedZeroSample.isZero = false ∧
      ∃ s, signedZeroSample.toSparse = .ok s ∧ signedZeroSample.CompressesTo s ∧
        Storage.structEq (.dense s.toDense) (.dense signedZeroSample) = false := by
  have hreach : (Storage.dense signedZeroSample).Reachable :=
    .real (.build (.real (.denseColumnMajor signedZeroSample.data ⟨2, 2⟩)) (by decide +kernel))
  have hz : signedZeroSample.isZero = false := by decide +kernel
  obtain ⟨s, hs, hstored, _, _, heq⟩ := (Dense.toSparse_exact hreach).2 hz
  refine ⟨hreach, hz, s, hs, hstored, Bool.eq_false_iff.mpr ?_⟩
  rw [ne_eq, heq]
  decide +kernel

/-! ## From sparse to dense and back -/

namespace Sparse

namespace WellFormed

variable {s : Sparse α} (h : s.WellFormed)

include h

theorem get?_eq_entry {row col : Nat} (hr : row < s.dims.rows) (hc : col < s.dims.cols) :
    s.get? row col = some (s.toDense.entry row col) :=
  Storage.WellFormed.get?_eq_some (s := .sparse s) h hr hc

theorem mem_nonzeroColumn_toDense {row col : Nat} (hc : col < s.dims.cols) {a : α} :
    (row, a) ∈ nonzeroColumn s.dims.rows (s.toDense.entry · col) ↔
      ((row : Int), a) ∈ s.column col ∧ Entry.isNonzero a = true := by
  refine (@mem_nonzeroColumn α _ s.dims.rows (s.toDense.entry · col) row a).trans ?_
  constructor
  · rintro ⟨hr, rfl, hnz⟩
    have hget := h.get?_eq_entry hr hc
    by_cases hmem : ∃ a, ((row : Int), a) ∈ s.column col
    · obtain ⟨a, hmem⟩ := hmem
      rw [h.get?_of_mem hc hmem, Option.some.injEq] at hget
      exact ⟨hget ▸ hmem, hnz⟩
    · rw [get?_of_not_mem (Dims.contains_iff.mpr ⟨hr, hc⟩) fun a ha => hmem ⟨a, ha⟩,
        Option.some.injEq] at hget
      rw [← hget, Entry.isNonzero, Entry.isZero_zero] at hnz
      cases hnz
  · rintro ⟨hmem, hnz⟩
    have hr := Int.ofNat_lt.mp (h.row_bounds_column hmem).2
    have hget := h.get?_eq_entry hr hc
    rw [h.get?_of_mem hc hmem, Option.some.injEq] at hget
    exact ⟨hr, hget.symm, hnz⟩

theorem isZero_toDense : s.toDense.isZero = false := by
  obtain ⟨a, ha, hnz⟩ := h.exists_nonzero
  obtain ⟨col, hc, row, hr, hmem⟩ := h.exists_column_of_mem ha
  obtain ⟨_, hentry, _⟩ := mem_nonzeroColumn.mp ((h.mem_nonzeroColumn_toDense hc).mpr ⟨hmem, hnz⟩)
  refine Bool.eq_false_iff.mpr fun hzero => ?_
  have hz := h.toDense.isZero_iff.mp hzero row hr col hc
  rw [Entry.isNonzero, ← hentry, hz] at hnz
  cases hnz

theorem toSparse_toDense_eq : s.toDense.toSparse =
    .ok (Sparse.ofColumns s.dims (nonzeroColumns s.dims s.toDense.entry)) := by
  rw [h.toDense.toSparse_eq, h.isZero_toDense]
  rfl

/-- A column is collected again in the order of its rows and without its zeros. -/
theorem nonzeroColumn_toDense_perm {col : Nat} (hc : col < s.dims.cols) :
    (nonzeroColumn s.dims.rows (s.toDense.entry · col)).Perm
      ((s.columnEntries col).filter fun entry => Entry.isNonzero entry.2) := by
  have hnodup : (s.columnEntries col).Nodup := List.Nodup.of_map _ (h.nodup_fst_columnEntries hc)
  refine (List.perm_ext_iff_of_nodup (List.Nodup.of_map _ (rowsAscend_nonzeroColumn _ _).nodup_fst)
    (hnodup.filter _)).mpr fun ⟨row, a⟩ => ?_
  rw [h.mem_nonzeroColumn_toDense hc, List.mem_filter, h.mem_columnEntries]

theorem length_nonzeroColumns_toDense :
    (nonzeroColumns s.dims s.toDense.entry).flatten.length = countNonzero s.values := by
  rw [nonzeroColumns, ← List.flatMap_def, List.length_flatMap, countNonzero, ← h.flatMap_values,
    List.countP_flatMap]
  congr 1
  refine List.map_congr_left fun col hc => ?_
  rw [(h.nonzeroColumn_toDense_perm (List.mem_range.mp hc)).length_eq, ← List.countP_eq_length_filter,
    columnEntries, List.countP_map, Function.comp_apply, List.countP_map]
  rfl

theorem rowsAscend_columnEntries (hs : s.Canonical) {col : Nat} (hc : col < s.dims.cols) :
    RowsAscend (s.columnEntries col) := by
  have hrows := hs.rows_ascend col hc
  rw [← h.map_fst_column, List.pairwise_map] at hrows
  rw [RowsAscend, columnEntries, List.pairwise_map]
  refine hrows.imp_of_mem ?_
  rintro ⟨row, a⟩ ⟨row', a'⟩ hmem hmem' hlt
  obtain ⟨hnn, _⟩ := h.row_bounds_column hmem
  show row.toNat < row'.toNat
  have hlt : row < row' := hlt
  omega

/-- Nothing happens to a canonical matrix. -/
theorem toSparse_toDense_of_canonical (hs : s.Canonical) : s.toDense.toSparse = .ok s := by
  have hcolumns : nonzeroColumns s.dims s.toDense.entry = s.columns := by
    refine List.map_congr_left fun col hc => ?_
    have hc := List.mem_range.mp hc
    have hperm := h.nonzeroColumn_toDense_perm hc
    -- with no zero to drop and nothing to sort, the column stays the same list
    rw [List.filter_eq_self.mpr] at hperm
    · exact hperm.eq_of_pairwise (fun p q _ _ hpq hqp => absurd hqp (Nat.lt_asymm hpq))
        (rowsAscend_nonzeroColumn _ _) (h.rowsAscend_columnEntries hs hc)
    · rintro ⟨row, a⟩ hmem
      exact hs.nonzero a (h.value_mem (h.mem_columnEntries.mp hmem))
  rw [h.toSparse_toDense_eq, hcolumns, h.ofColumns_columns]

/--
Spreading out and compressing again sorts the rows of each column and drops the zeros that are stored.
It changes nothing if there is nothing of that to do, so not a second time.
-/
theorem canonicalises : ∃ t, s.toDense.toSparse = .ok t ∧ t.dims = s.dims ∧ t.Canonical ∧
    t.storedCount = countNonzero s.values ∧
    (∀ row < s.dims.rows, ∀ col < s.dims.cols, ∃ a, s.get? row col = some a ∧
      t.get? row col = some (if Entry.isNonzero a then a else Entry.zero)) ∧
    (Storage.structEq (.sparse t) (.sparse s) = true ↔ s.Canonical) ∧
    t.toDense.toSparse = .ok t := by
  obtain ⟨t, ht⟩ : ∃ t, s.toDense.toSparse = .ok t := ⟨_, h.toSparse_toDense_eq⟩
  have hwf : t.WellFormed := WellFormed.compress ht h.positive
  have hcanon : t.Canonical := Canonical.compress h.positive ht
  refine ⟨t, ht, dims_compress ht, hcanon, ?_, fun row hr col hc => ?_, ?_,
    hwf.toSparse_toDense_of_canonical hcanon⟩
  · have hcolumns := compress_eq_ofColumns ht
    rw [storedCount, hcolumns, Sparse.ofColumns, List.length_map]
    exact h.length_nonzeroColumns_toDense
  · exact ⟨_, h.get?_eq_entry hr hc, get?_compress h.positive ht hr hc⟩
  · rw [Storage.structEq_iff (a := .sparse _) (b := .sparse _) hwf h, Storage.sparse.injEq]
    refine ⟨fun heq => heq ▸ hcanon, fun hs => ?_⟩
    rw [h.toSparse_toDense_of_canonical hs] at ht
    exact (Except.ok.inj ht).symm

end WellFormed

end Sparse

end StoredMatrix
