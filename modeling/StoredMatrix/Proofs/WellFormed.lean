import StoredMatrix.Matrix.Construction
import StoredMatrix.Proofs.Acceptance
import StoredMatrix.Proofs.Columns

/-!
# Well-formed matrices

What a matrix has to satisfy to be one, for each of the three shapes. Everything that reads or
converts a matrix relies on it. The dense and the diagonal constructors are dealt with here.
-/

namespace StoredMatrix

variable {α : Type}

/-! ## The invariant -/

/-- There is an entry for every position. -/
structure Dense.WellFormed (m : Dense α) : Prop where
  positive : m.dims.Positive
  length_data : m.data.length = m.dims.count

/-- The run is not empty, and no longer than the diagonal. -/
structure Diagonal.WellFormed (m : Diagonal α) : Prop where
  positive : m.dims.Positive
  data_pos : 1 ≤ m.data.length
  data_le : m.data.length ≤ m.dims.diagonalLength

/-- The difference of the pointers on both sides of a column. -/
def columnWidth (colPtrs : List Int) (col : Nat) : Int :=
  colPtrs.getD (col + 1) 0 - colPtrs.getD col 0

/--
The pointers cut both buffers into columns, no column lists a row twice, some stored value is not
zero, and the cached maximum is the width of the widest column.
-/
structure Sparse.WellFormed [Element α] (m : Sparse α) : Prop where
  positive : m.dims.Positive
  pointers : PointersInto m.colPtrs m.dims.cols m.values.length
  length_rowIndices : m.rowIndices.length = m.values.length
  row_bounds : ∀ row ∈ m.rowIndices, 0 ≤ row ∧ row < m.dims.rows
  nodup_column : ∀ col < m.dims.cols, (columnSlice m.colPtrs m.rowIndices col).Nodup
  exists_nonzero : ∃ a ∈ m.values, Entry.isNonzero a = true
  widest_column :
    IsGreatest {width | ∃ col < m.dims.cols, columnWidth m.colPtrs col = width} m.maxColEntries

/-- The invariant of each shape. -/
def Storage.WellFormed [Element α] : Storage α → Prop
  | .dense m => m.WellFormed
  | .diagonal m => m.WellFormed
  | .sparse m => m.WellFormed

/-- The invariant in either domain. -/
def Matrix.WellFormed : Matrix → Prop
  | .real s => s.WellFormed
  | .complex s => s.WellFormed

theorem Storage.WellFormed.positive [Element α] {s : Storage α} (h : s.WellFormed) : s.dims.Positive := by
  cases s with
  | dense m => exact Dense.WellFormed.positive h
  | diagonal m => exact Diagonal.WellFormed.positive h
  | sparse m => exact Sparse.WellFormed.positive h

theorem Matrix.WellFormed.positive {m : Matrix} (h : m.WellFormed) : m.dims.Positive := by
  cases m with
  | real s => exact Storage.WellFormed.positive h
  | complex s => exact Storage.WellFormed.positive h

theorem Dims.positive_one : Dims.Positive ⟨1, 1⟩ := ⟨Nat.one_pos, Nat.one_pos⟩

theorem Dims.Positive.diagonalLength_pos {d : Dims} (h : d.Positive) : 0 < d.diagonalLength :=
  Nat.lt_min.mpr ⟨h.rows_pos, h.cols_pos⟩

/-! ## Dense constructors -/

theorem length_ofInterleaved (words : List Binary64) :
    (Complex.ofInterleaved words).length = words.length / 2 := by
  induction words using Complex.ofInterleaved.induct with
  | case1 re im rest ih =>
      rw [Complex.ofInterleaved, List.length_cons, ih]
      simp only [List.length_cons]
      omega
  | case2 words h =>
      cases words with
      | nil => rfl
      | cons w ws =>
          cases ws with
          | nil => simp [Complex.ofInterleaved]
          | cons w' ws => exact absurd rfl (h w w' ws)

theorem length_flatMap_column {β : Type} [Entry β] {g : Grid β} {d : Dims} (h : g.length = d.rows) :
    ((List.range d.cols).flatMap g.column).length = d.count := by
  have hcol : ∀ column ∈ (List.range d.cols).map g.column, column.length = d.rows := by
    intro column hmem
    obtain ⟨col, _, rfl⟩ := List.mem_map.mp hmem
    rw [Grid.column, List.length_map, h]
  rw [List.flatMap_def, Grid.length_flatten_of_forall hcol, List.length_map, List.length_range,
    Nat.mul_comm, Dims.count]

namespace Dense

theorem ofColumnMajor_eq_ok {data : List α} {d : Dims} {m : Dense α} :
    ofColumnMajor data d = .ok m ↔
      d.Positive ∧ d.count < wordLimit ∧ data.length = d.count ∧ m = ⟨d, data⟩ := by
  rw [ofColumnMajor, Dims.checkedCount_bind_eq_ok]
  simp only [bind_eq_ok, ensure_eq_ok, pure_eq_ok, decide_eq_true_eq, exists_const, eq_comm (a := m)]

theorem WellFormed.ofColumnMajor {data : List α} {d : Dims} {m : Dense α}
    (h : ofColumnMajor data d = .ok m) : m.WellFormed := by
  obtain ⟨hp, _, hl, rfl⟩ := ofColumnMajor_eq_ok.mp h
  exact ⟨hp, hl⟩

theorem WellFormed.scalar (a : α) : (scalar a).WellFormed := ⟨Dims.positive_one, rfl⟩

variable [Element α]

theorem WellFormed.toComplex {m : Dense α} (h : m.WellFormed) : m.toComplex.WellFormed where
  positive := h.positive
  length_data := by simpa only [Dense.toComplex, promoteAll, List.length_map] using h.length_data

theorem WellFormed.toLogical {m : Dense Binary64} (h : m.WellFormed) : m.toLogical.WellFormed where
  positive := h.positive
  length_data := by simpa only [Dense.toLogical, List.length_map] using h.length_data

theorem ofGrid_eq_ok {g : Grid α} {m : Dense α} :
    ofGrid g = .ok m ↔
      ∃ d, g.dims "data" = .ok d ∧ m = ⟨d, (List.range d.cols).flatMap g.column⟩ := by
  simp only [ofGrid, bind_eq_ok, pure_eq_ok, eq_comm (a := m)]

theorem WellFormed.ofGrid {g : Grid α} {m : Dense α} (h : ofGrid g = .ok m) : m.WellFormed := by
  obtain ⟨d, hd, rfl⟩ := ofGrid_eq_ok.mp h
  obtain ⟨hl, hp, _⟩ := Grid.dims_eq_ok.mp hd
  exact ⟨hp, length_flatMap_column hl⟩

theorem WellFormed.logicalOfGrid {g : Grid Binary64} {m : Dense Binary64}
    (h : logicalOfGrid g = .ok m) : m.WellFormed := by
  obtain ⟨n, hn, hm⟩ := bind_eq_ok.mp h
  exact pure_eq_ok.mp hm ▸ (WellFormed.ofGrid hn).toLogical

theorem WellFormed.logicalOfColumnMajor {data : List Binary64} {d : Dims} {m : Dense Binary64}
    (h : logicalOfColumnMajor data d = .ok m) : m.WellFormed := by
  obtain ⟨n, hn, hm⟩ := bind_eq_ok.mp h
  exact pure_eq_ok.mp hm ▸ (WellFormed.ofColumnMajor hn).toLogical

theorem WellFormed.ofRealGrid {g : Grid Binary64} {m : Dense Complex}
    (h : ofRealGrid g = .ok m) : m.WellFormed := by
  obtain ⟨n, hn, hm⟩ := bind_eq_ok.mp h
  exact pure_eq_ok.mp hm ▸ (WellFormed.ofGrid hn).toComplex

theorem WellFormed.ofSplitGrids {re im : Grid Binary64} {m : Dense Complex}
    (h : ofSplitGrids re im = .ok m) : m.WellFormed := by
  obtain ⟨d, hd, hm⟩ := bind_eq_ok.mp h
  obtain rfl := pure_eq_ok.mp hm
  obtain ⟨hre, him⟩ := Grid.pairedDims_eq_ok.mp hd
  obtain ⟨hl, hp, _⟩ := Grid.dims_eq_ok.mp hre
  obtain ⟨hl', _⟩ := Grid.dims_eq_ok.mp him
  refine ⟨hp, ?_⟩
  rw [Complex.ofParts, List.length_zipWith, length_flatMap_column hl, length_flatMap_column hl',
    Nat.min_self]

theorem ofInterleaved_eq_ok {words : List Binary64} {d : Dims} {m : Dense Complex} :
    ofInterleaved words d = .ok m ↔
      d.Positive ∧ d.count < wordLimit ∧
        (words.length = d.count ∧ m = ⟨d, promoteAll words⟩ ∨
          words.length = 2 * d.count ∧ m = ⟨d, Complex.ofInterleaved words⟩) := by
  rw [ofInterleaved, Dims.checkedCount_bind_eq_ok]
  refine and_congr_right fun hp => and_congr_right fun _ => ?_
  have hpos : 0 < d.count := Nat.mul_pos hp.rows_pos hp.cols_pos
  split
  · rename_i hl
    have hne : d.count ≠ 2 * d.count := by omega
    simp only [pure_eq_ok, hl, hne, true_and, false_and, or_false, eq_comm (a := m)]
  · rename_i hl
    simp only [elementsOfWords, bind_eq_ok, ensure_eq_ok, pure_eq_ok, decide_eq_true_eq, exists_const, hl,
      false_and, false_or]
    constructor
    · rintro ⟨hl', _, ⟨_, rfl⟩, rfl⟩
      exact ⟨hl', rfl⟩
    · rintro ⟨hl', rfl⟩
      exact ⟨hl', _, ⟨hl' ▸ Nat.mul_mod_right 2 _, rfl⟩, rfl⟩

theorem WellFormed.ofInterleaved {words : List Binary64} {d : Dims} {m : Dense Complex}
    (h : ofInterleaved words d = .ok m) : m.WellFormed := by
  obtain ⟨hp, _, ⟨hl, rfl⟩ | ⟨hl, rfl⟩⟩ := ofInterleaved_eq_ok.mp h
  · exact ⟨hp, by rw [promoteAll, List.length_map, hl]⟩
  · exact ⟨hp, by rw [length_ofInterleaved, hl, Nat.mul_div_cancel_left _ Nat.two_pos]⟩

theorem ofSplit_eq_ok {re im : List Binary64} {d : Dims} {m : Dense Complex} :
    ofSplit re im d = .ok m ↔
      d.Positive ∧ d.count < wordLimit ∧ re.length = d.count ∧ im.length = d.count ∧
        m = ⟨d, Complex.ofParts re im⟩ := by
  rw [ofSplit, Dims.checkedCount_bind_eq_ok]
  simp only [bind_eq_ok, ensure_eq_ok, pure_eq_ok, decide_eq_true_eq, exists_const, eq_comm (a := m)]

theorem WellFormed.ofSplit {re im : List Binary64} {d : Dims} {m : Dense Complex}
    (h : ofSplit re im d = .ok m) : m.WellFormed := by
  obtain ⟨hp, _, hre, him, rfl⟩ := ofSplit_eq_ok.mp h
  exact ⟨hp, by rw [Complex.ofParts, List.length_zipWith, hre, him, Nat.min_self]⟩

end Dense

/-! ## Diagonal constructors -/

theorem length_fitTo [Element α] (n : Nat) (xs : List α) : (fitTo n xs).length = n := by
  rw [fitTo, List.length_rightpad, List.length_take]
  omega

namespace Diagonal

theorem square_eq_ok {values : List α} {m : Diagonal α} :
    square values = .ok m ↔
      0 < values.length ∧ values.length * values.length < wordLimit ∧
        m = ⟨⟨values.length, values.length⟩, values⟩ := by
  rw [square, Dims.checkedCount_bind_eq_ok, pure_eq_ok, eq_comm (a := m)]
  exact and_congr_left fun _ => ⟨Dims.Positive.rows_pos, fun h => ⟨h, h⟩⟩

theorem WellFormed.square {values : List α} {m : Diagonal α} (h : square values = .ok m) :
    m.WellFormed := by
  obtain ⟨hp, _, rfl⟩ := square_eq_ok.mp h
  exact ⟨⟨hp, hp⟩, hp, Nat.le_of_eq (Nat.min_self _).symm⟩

theorem atOrigin_eq_ok {a : α} {d : Dims} {m : Diagonal α} :
    atOrigin a d = .ok m ↔ d.Positive ∧ d.count < wordLimit ∧ m = ⟨d, [a]⟩ := by
  rw [atOrigin, Dims.checkedCount_bind_eq_ok, pure_eq_ok, eq_comm (a := m)]

theorem WellFormed.atOrigin {a : α} {d : Dims} {m : Diagonal α} (h : atOrigin a d = .ok m) :
    m.WellFormed := by
  obtain ⟨hp, _, rfl⟩ := atOrigin_eq_ok.mp h
  exact ⟨hp, Nat.le_refl 1, hp.diagonalLength_pos⟩

theorem WellFormed.scalar (a : α) : (scalar a).WellFormed :=
  ⟨Dims.positive_one, Nat.le_refl 1, Nat.le_refl 1⟩

variable [Element α]

theorem WellFormed.toComplex {m : Diagonal α} (h : m.WellFormed) : m.toComplex.WellFormed where
  positive := h.positive
  data_pos := by simpa only [Diagonal.toComplex, promoteAll, List.length_map] using h.data_pos
  data_le := by simpa only [Diagonal.toComplex, promoteAll, List.length_map] using h.data_le

theorem ofValues_eq_ok {values : List α} {d : Dims} {m : Diagonal α} :
    ofValues values d = .ok m ↔
      d.Positive ∧ d.count < wordLimit ∧ m = ⟨d, fitTo d.diagonalLength values⟩ := by
  rw [ofValues, Dims.checkedCount_bind_eq_ok, pure_eq_ok, eq_comm (a := m)]

theorem WellFormed.ofValues {values : List α} {d : Dims} {m : Diagonal α}
    (h : ofValues values d = .ok m) : m.WellFormed := by
  obtain ⟨hp, _, rfl⟩ := ofValues_eq_ok.mp h
  have hl := length_fitTo d.diagonalLength values
  exact ⟨hp, hl.symm ▸ hp.diagonalLength_pos, Nat.le_of_eq hl⟩

theorem WellFormed.squareOfReal {values : List Binary64} {m : Diagonal Complex}
    (h : squareOfReal values = .ok m) : m.WellFormed := by
  obtain ⟨n, hn, hm⟩ := bind_eq_ok.mp h
  exact pure_eq_ok.mp hm ▸ (WellFormed.square hn).toComplex

theorem WellFormed.ofReal {values : List Binary64} {d : Dims} {m : Diagonal Complex}
    (h : ofReal values d = .ok m) : m.WellFormed := by
  obtain ⟨n, hn, hm⟩ := bind_eq_ok.mp h
  exact pure_eq_ok.mp hm ▸ (WellFormed.ofValues hn).toComplex

theorem WellFormed.squareOfSplit {re im : List Binary64} {m : Diagonal Complex}
    (h : squareOfSplit re im = .ok m) : m.WellFormed := by
  obtain ⟨_, _, hm⟩ := bind_eq_ok.mp h
  exact WellFormed.square hm

theorem WellFormed.ofSplit {re im : List Binary64} {d : Dims} {m : Diagonal Complex}
    (h : ofSplit re im d = .ok m) : m.WellFormed := by
  obtain ⟨_, _, hm⟩ := bind_eq_ok.mp h
  exact WellFormed.ofValues hm

end Diagonal

end StoredMatrix
