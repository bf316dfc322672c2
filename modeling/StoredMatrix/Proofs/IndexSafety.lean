import StoredMatrix.Matrix.Checked
import StoredMatrix.Proofs.CheckedReading

/-!
# Positions within bounds

Spreading a matrix out computes the offsets at which its entries are written, compressing it the
pointers and rows that are stored. If the buffers can be allocated, no step goes wrong: every offset is
below the number of positions, and every pointer and row is the same number before and after a cast.
Without room for a buffer nothing else is tried.
-/

namespace StoredMatrix

variable {α : Type} [Element α]

/-! ## Room for buffers -/

namespace Dims

variable {d : Dims} {width count : Nat}

/-- A buffer with a complex number for every position can be allocated. -/
def Allocatable (d : Dims) : Prop := d.count * 16 < signedLimit

/-- A buffer with an element of so many words for every position can be allocated. -/
def Fits (d : Dims) (width : Nat) : Prop := d.count * (width * Storage.wordBytes) < signedLimit

/-- A buffer with the pointers of all columns can be allocated. -/
def PointersFit (d : Dims) : Prop := (d.cols + 1) * Storage.wordBytes < signedLimit

instance : Decidable d.Allocatable := Nat.decLt _ _

instance : Decidable (d.Fits width) := Nat.decLt _ _

theorem fits_two_iff : d.Fits 2 ↔ d.Allocatable := Iff.rfl

theorem Fits.mono {narrow : Nat} (h : d.Fits width) (hle : narrow ≤ width) : d.Fits narrow :=
  Nat.lt_of_le_of_lt (Nat.mul_le_mul_left _ (Nat.mul_le_mul_right _ hle)) h

theorem Allocatable.fits (h : d.Allocatable) (hw : width ≤ 2) : d.Fits width := (fits_two_iff.mpr h).mono hw

/-- An element takes a word at least. -/
theorem Fits.count_mul_lt (h : d.Fits width) (hw : 0 < width) : d.count * Storage.wordBytes < signedLimit :=
  Nat.lt_of_le_of_lt (Nat.mul_le_mul_left _ (Nat.le_mul_of_pos_left _ hw)) h

theorem Fits.count_lt (h : d.Fits width) (hw : 0 < width) : d.count < wordLimit := by
  have hlt := h.count_mul_lt hw
  rw [Storage.wordBytes, signedLimit] at hlt
  rw [wordLimit]
  omega

theorem Fits.allocate (h : d.Fits width) (hcount : count ≤ d.count) :
    Checked.allocate count (width * Storage.wordBytes) = .ok () :=
  Checked.allocate_eq_ok.mpr (Nat.lt_of_le_of_lt (Nat.mul_le_mul_right _ hcount) h)

theorem Allocatable.pointersFit (h : d.Allocatable) (hp : d.Positive) : d.PointersFit := by
  have hcols := cols_le_count hp
  have hpos := hp.cols_pos
  rw [Allocatable, signedLimit] at h
  rw [PointersFit, Storage.wordBytes, signedLimit]
  omega

end Dims

/-! ## Spreading out -/

theorem Dense.checkedZeroBuffer_eq {d : Dims} (hn : d.count < wordLimit) :
    checkedZeroBuffer (α := α) d = Checked.ifRoom (d.Fits (Element.width α)) (zeroBuffer d) := by
  have hcount : Checked.mul d.rows d.cols = .ok d.count := Checked.mul_eq_ok.mpr ⟨hn, rfl⟩
  rw [checkedZeroBuffer, hcount]
  change Checked.allocate d.count _ >>= _ = _
  rw [Checked.allocate_eq]
  exact Checked.ifRoom_bind fun _ => rfl

namespace Diagonal.WellFormed

variable {m : Diagonal α} (h : m.WellFormed) (hn : m.dims.count < wordLimit)

include h

omit [Element α] in
theorem checkedWriteEntry_eq (hn : m.dims.count < wordLimit) {buffer : List α}
    (hl : buffer.length = m.dims.count) {k : Nat} (hk : k < m.data.length) (a : α) :
    checkedWriteEntry (m.dims.rows + 1) buffer (a, k) =
      .ok (buffer.set (m.dims.diagonalOffset k) a) := by
  have hlt := h.diagonalOffset_lt hk
  have hword := Nat.lt_trans hlt hn
  exact bind_eq_ok.mpr ⟨_, Checked.mul_eq_ok.mpr ⟨hword, rfl⟩, Checked.write_eq_ok.mpr ⟨hl ▸ hlt, rfl⟩⟩

theorem checkedToDense_eq (hn : m.dims.count < wordLimit) :
    m.checkedToDense = Checked.ifRoom (m.dims.Fits (Element.width α)) m.toDense := by
  rw [checkedToDense, Dense.checkedZeroBuffer_eq hn]
  refine Checked.ifRoom_bind fun hfits => ?_
  have hstride : m.dims.rows + 1 < wordLimit := by
    have hrows := Dims.rows_le_count h.positive
    have hcount := hfits.count_mul_lt Element.width_pos
    rw [Storage.wordBytes, signedLimit] at hcount
    rw [wordLimit]
    omega
  refine bind_eq_ok.mpr ⟨_, Checked.add_eq_ok.mpr ⟨hstride, rfl⟩, ?_⟩
  -- every turn leaves a buffer with an element for each position
  refine bind_eq_ok.mpr ⟨_, (foldlM_eq_ok_of_mem
    (g := fun buffer entry => buffer.set (m.dims.diagonalOffset entry.2) entry.1)
    (fun buffer : List α => buffer.length = m.dims.count) (Dense.length_zeroBuffer m.dims) ?_).1, ?_⟩
  · rintro ⟨a, k⟩ hmem buffer hl
    have hk := (List.getElem?_eq_some_iff.mp (List.mem_zipIdx_iff_getElem?.mp hmem)).1
    exact ⟨h.checkedWriteEntry_eq hn hl hk a, by rwa [List.length_set]⟩
  · rw [Diagonal.toDense, Dense.write, offsetEntries, List.mapIdx_eq_zipIdx_map, List.foldl_map]
    rfl

end Diagonal.WellFormed

namespace Sparse.WellFormed

variable {m : Sparse α} (h : m.WellFormed) (hn : m.dims.count < wordLimit)

include h

/-- The entries of a column stand side by side in both buffers. -/
theorem column_eq_map {col : Nat} (hc : col < m.dims.cols) :
    m.column col =
      (List.range' (columnStart m.colPtrs col)
        (columnStart m.colPtrs (col + 1) - columnStart m.colPtrs col)).map
          fun i => (m.rowIndices.getD i 0, m.values.getD i Entry.zero) := by
  have hstop : columnStart m.colPtrs (col + 1) ≤ _ := h.pointers.columnStart_le hc
  have hrows := h.pointers.length_columnSlice h.length_rowIndices hc
  have hvalues := h.pointers.length_columnSlice rfl hc
  refine List.ext_getElem ?_ fun k hk hk' => ?_
  · rw [column, List.length_zip, hrows, hvalues, Nat.min_self, List.length_map, List.length_range']
  · rw [List.length_map, List.length_range'] at hk'
    have hi : columnStart m.colPtrs col + k < m.values.length := by omega
    simp [column, columnSlice, hi, h.length_rowIndices ▸ hi]

include hn

theorem checkedWriteEntry_eq {buffer : List α} (hl : buffer.length = m.dims.count) {col i : Nat}
    (hc : col < m.dims.cols) (hi : i < m.values.length) :
    m.checkedWriteEntry col buffer i =
      .ok (buffer.set (m.dims.offset (m.rowIndices.getD i 0).toNat col) (m.values.getD i Entry.zero)) := by
  have hi' : i < m.rowIndices.length := h.length_rowIndices ▸ hi
  obtain ⟨hnn, hrow⟩ := h.row_bounds _ (List.getElem_mem hi')
  have hlt : m.dims.offset m.rowIndices[i].toNat col < m.dims.count := Dims.offset_lt (by omega) hc
  have hword := h.toWord_row hn (List.getElem_mem hi')
  rw [Dims.offset] at hlt
  simp only [checkedWriteEntry, bind_eq_ok, Checked.read_eq_ok, Checked.mul_eq_ok, Checked.add_eq_ok,
    Checked.write_eq_ok, List.getElem?_eq_getElem hi, List.getElem?_eq_getElem hi']
  refine ⟨_, ⟨_, rfl, hword⟩, _, ⟨by omega, rfl⟩, _, ⟨by omega, rfl⟩, _, rfl, by omega, ?_⟩
  simp [Dims.offset, Nat.add_comm, hi, hi']

theorem checkedWriteColumn_eq {buffer : List α} (hl : buffer.length = m.dims.count) {col : Nat}
    (hc : col < m.dims.cols) :
    m.checkedWriteColumn buffer col =
      .ok (Dense.write buffer ((m.column col).map fun (row, a) => (m.dims.offset row.toNat col, a))) := by
  have hstop : columnStart m.colPtrs (col + 1) ≤ _ := h.pointers.columnStart_le hc
  refine bind_eq_ok.mpr ⟨_, h.checkedRange_eq hn hc, ?_⟩
  rw [Dense.write, h.column_eq_map hc, List.map_map, List.foldl_map]
  refine (foldlM_eq_ok_of_mem (fun buffer : List α => buffer.length = m.dims.count) hl ?_).1
  intro i hi buffer hl
  have hi : i < m.values.length := by
    rw [List.mem_range'_1] at hi
    omega
  exact ⟨h.checkedWriteEntry_eq hn hl hc hi, by rwa [List.length_set]⟩

theorem checkedToDense_eq :
    m.checkedToDense = Checked.ifRoom (m.dims.Fits (Element.width α)) m.toDense := by
  rw [checkedToDense, Dense.checkedZeroBuffer_eq hn]
  refine Checked.ifRoom_bind fun _ => ?_
  rw [Sparse.toDense, offsetEntries, Dense.write, List.foldl_flatMap]
  refine bind_eq_ok.mpr ⟨_, (foldlM_eq_ok_of_mem
    (fun buffer : List α => buffer.length = m.dims.count) (Dense.length_zeroBuffer m.dims) ?_).1, rfl⟩
  intro col hc buffer hl
  refine ⟨h.checkedWriteColumn_eq hn hl (List.mem_range.mp hc), ?_⟩
  exact (Dense.length_write buffer _).trans hl

end Sparse.WellFormed

/-- There is room for all entries in one buffer; those of a dense matrix stand in one already. -/
def Storage.Expandable : Storage α → Prop
  | dense _ => True
  | diagonal m => m.dims.Fits (Element.width α)
  | sparse m => m.dims.Fits (Element.width α)

instance : DecidablePred (Storage.Expandable (α := α))
  | .dense _ => inferInstanceAs (Decidable True)
  | .diagonal m => inferInstanceAs (Decidable (m.dims.Fits (Element.width α)))
  | .sparse m => inferInstanceAs (Decidable (m.dims.Fits (Element.width α)))

theorem Dims.Fits.expandable {s : Storage α} (h : s.dims.Fits (Element.width α)) : s.Expandable := by
  cases s with
  | dense m => trivial
  | diagonal m => exact h
  | sparse m => exact h

theorem Storage.WellFormed.checkedToDense_eq {s : Storage α} (h : s.WellFormed)
    (hn : s.dims.count < wordLimit) : s.checkedToDense = Checked.ifRoom s.Expandable s.toDense := by
  cases s with
  | dense m => exact (Checked.ifRoom_of trivial).symm
  | diagonal m => exact Diagonal.WellFormed.checkedToDense_eq h hn
  | sparse m => exact Sparse.WellFormed.checkedToDense_eq h hn

/-! ## Promoting -/

theorem Dense.WellFormed.checkedToComplex_eq {m : Dense α} (h : m.WellFormed) :
    m.checkedToComplex = Checked.ifRoom (m.dims.Fits 2) m.toComplex := by
  rw [checkedToComplex, h.length_data, Checked.allocate_eq]
  exact Checked.ifRoom_bind fun _ => rfl

/-! ## Compressing -/

theorem Dims.add_rows_le_count {d : Dims} {col : Nat} (hc : col < d.cols) : col * d.rows + d.rows ≤ d.count := by
  rw [← Nat.succ_mul, count, Nat.mul_comm d.rows]
  exact Nat.mul_le_mul_right _ hc

namespace Sparse

theorem countColumn_le (rows : Nat) (entry : Nat → α) : countColumn rows entry ≤ rows :=
  (List.length_filter_le _ _).trans_eq List.length_range

variable {d : Dims} {entry : Nat → Nat → Except Fault α} {entry' : Nat → Nat → α}
  (hentry : ∀ row < d.rows, ∀ col < d.cols, entry row col = .ok (entry' row col))

include hentry

theorem checkedAddCount_eq_bind (counts : Nat × Nat) {col : Nat} (hc : col < d.cols) :
    checkedAddCount d.rows entry counts col =
      (fun total => (total, max counts.2 (countColumn d.rows (entry' · col)))) <$>
        Checked.add counts.1 (countColumn d.rows (entry' · col)) := by
  have hcolumn : (List.range d.rows).mapM (entry · col) = .ok ((List.range d.rows).map (entry' · col)) :=
    mapM_eq_ok fun row hr => hentry row (List.mem_range.mp hr) col hc
  have hn : ((List.range d.rows).map (entry' · col)).countP Entry.isNonzero = countColumn d.rows (entry' · col) := by
    rw [List.countP_map, List.countP_eq_length_filter, countColumn]
    rfl
  rw [checkedAddCount, hcolumn, ← hn]
  rfl

theorem checkedAddCount_eq (counts : Nat × Nat) {col : Nat} (hc : col < d.cols)
    (hbound : counts.1 + d.rows < wordLimit) :
    checkedAddCount d.rows entry counts col = .ok (addCount d.rows entry' counts col) ∧
      (addCount d.rows entry' counts col).1 ≤ counts.1 + d.rows := by
  have hle := countColumn_le d.rows (entry' · col)
  rw [checkedAddCount_eq_bind hentry counts hc]
  exact ⟨map_eq_ok.mpr ⟨_, Checked.add_eq_ok.mpr ⟨by omega, rfl⟩, rfl⟩, Nat.add_le_add_left hle _⟩

theorem checkedCountColumns_eq (hn : d.count < wordLimit) :
    (List.range d.cols).foldlM (checkedAddCount d.rows entry) (0, 0) = .ok (countColumns d entry') ∧
      (countColumns d entry').1 ≤ d.count := by
  -- no column holds more entries than it has rows
  obtain ⟨hloop, hle⟩ := foldlM_range_eq_ok (f := checkedAddCount d.rows entry)
    (g := addCount d.rows entry') (s := (0, 0)) (fun col counts => counts.1 ≤ col * d.rows)
    (Nat.zero_le _) fun col (hc : col < d.cols) counts hle => by
      have hcol := Dims.add_rows_le_count hc
      obtain ⟨hcount, hgrow⟩ := checkedAddCount_eq hentry counts hc (by omega)
      exact ⟨hcount, by rw [Nat.succ_mul]; omega⟩
  exact ⟨hloop, hle.trans_eq (Nat.mul_comm d.cols d.rows)⟩

omit hentry in
theorem Filling.checkedAddEntry_eq (f : Filling α) {row : Nat} (hrow : row < signedLimit) (a : α) :
    f.checkedAddEntry row a = .ok (f.addEntry row a) := by
  rw [checkedAddEntry, addEntry]
  split
  · rfl
  · exact bind_eq_ok.mpr ⟨_, Checked.toPointer_eq_ok.mpr ⟨hrow, rfl⟩, rfl⟩

theorem Filling.checkedAddColumn_eq {f : Filling α} {col : Nat} (hc : col < d.cols)
    (hbound : f.values.size + d.rows < signedLimit) :
    f.checkedAddColumn d.rows (entry · col) = .ok (f.addColumn d.rows (entry' · col)) ∧
      (f.addColumn d.rows (entry' · col)).values.size ≤ f.values.size + d.rows := by
  constructor
  · refine bind_eq_ok.mpr ⟨_, Checked.toPointer_eq_ok.mpr ⟨by omega, rfl⟩, ?_⟩
    refine (foldlM_range_eq_ok (fun _ _ => True) trivial fun row hr f _ => ⟨?_, trivial⟩).1
    exact bind_eq_ok.mpr ⟨_, hentry row hr col hc, f.checkedAddEntry_eq (by omega) _⟩
  · have hlength : (nonzeroColumn d.rows (entry' · col)).length ≤ d.rows := by
      rw [← countColumn_eq]
      exact countColumn_le _ _
    rw [(f.addColumn_gains d.rows (entry' · col)).length_values]
    omega

theorem checkedFillColumns_eq (hd : d.Fits (Element.width α)) (hp : d.PointersFit) {total : Nat}
    (ht : total ≤ d.count) : checkedFillColumns d entry total = .ok (fillColumns d entry') := by
  have hcount := hd.count_mul_lt Element.width_pos
  have hpointers : d.cols + 1 < wordLimit := by
    rw [Dims.PointersFit, Storage.wordBytes, signedLimit] at hp
    rw [wordLimit]
    omega
  rw [Storage.wordBytes] at hcount
  refine bind_eq_ok.mpr ⟨_, Checked.add_eq_ok.mpr ⟨hpointers, rfl⟩, ?_⟩
  refine bind_eq_ok.mpr ⟨(), Checked.allocate_eq_ok.mpr hp, ?_⟩
  refine bind_eq_ok.mpr ⟨(), Checked.allocate_eq_ok.mpr ?_, ?_⟩
  · rw [Storage.wordBytes]
    omega
  refine bind_eq_ok.mpr ⟨(), hd.allocate ht, ?_⟩
  refine (foldlM_range_eq_ok (fun col f => f.values.size ≤ col * d.rows) (Nat.zero_le _) ?_).1
  intro col hc f hsize
  have hcol := Dims.add_rows_le_count hc
  obtain ⟨hcolumn, hgrow⟩ := Filling.checkedAddColumn_eq hentry (f := f) hc (by omega)
  exact ⟨hcolumn, by rw [Nat.succ_mul]; omega⟩

theorem checkedCompress_eq (hd : d.Fits (Element.width α)) (hp : d.PointersFit) (arg : String) :
    checkedCompress arg d entry = .ok (compress arg d entry') := by
  obtain ⟨hcounts, hle⟩ := checkedCountColumns_eq hentry (hd.count_lt Element.width_pos)
  have hcount := hd.count_mul_lt Element.width_pos
  rw [Storage.wordBytes] at hcount
  refine bind_eq_ok.mpr ⟨_, hcounts, ?_⟩
  rw [compress]
  generalize countColumns d entry' = counts at hle ⊢
  obtain ⟨total, widest⟩ := counts
  dsimp only at hle ⊢
  by_cases hzero : total = 0
  · rw [hzero]
    rfl
  · rw [if_neg hzero]
    refine bind_eq_ok.mpr ⟨_, checkedFillColumns_eq hentry hd hp hle, ?_⟩
    refine bind_eq_ok.mpr ⟨_, Checked.toPointer_eq_ok.mpr ⟨by omega, rfl⟩, ?_⟩
    simp only [decide_eq_true hzero]
    rfl

end Sparse

theorem Dense.WellFormed.checkedToSparse_eq {m : Dense α} (h : m.WellFormed)
    (hd : m.dims.Fits (Element.width α)) (hp : m.dims.PointersFit) : m.checkedToSparse = .ok m.toSparse :=
  Sparse.checkedCompress_eq (fun _ hr _ hc => h.checkedEntry_eq (hd.count_lt Element.width_pos) hr hc) hd hp
    "data"

theorem Storage.WellFormed.checked_toSparse {s : Storage α} (h : s.WellFormed) (hd : s.dims.Allocatable)
    (hw : Element.width α ≤ 2) : s.checkedToDense >>= Dense.checkedToSparse = .ok s.toDense.toSparse := by
  have hfits : s.dims.Fits (Element.width α) := hd.fits hw
  rw [h.checkedToDense_eq (hfits.count_lt Element.width_pos), Checked.ifRoom_of hfits.expandable]
  refine h.toDense.checkedToSparse_eq ?_ ?_
  · rwa [s.dims_toDense]
  · rw [s.dims_toDense]
    exact hd.pointersFit h.positive

/-! ## The positions themselves -/

namespace Storage

/-- The positions that are looked at for an entry lie within the buffers. -/
def ReadsWithin : Storage α → (row col : Nat) → Prop
  | dense m, row, col => col * m.dims.rows + row < m.data.length
  | diagonal _, _, _ => True
  | sparse m, _, col => ∃ start stop : Nat,
      m.colPtrs[col]? = some (start : Int) ∧ m.colPtrs[col + 1]? = some (stop : Int) ∧
        start ≤ stop ∧ stop ≤ m.storedCount

/-- The offsets at which the stored entries are written lie within the dense buffer. -/
def WritesWithin : Storage α → Prop
  | dense _ => True
  | diagonal m => ∀ k < m.data.length, k * (m.dims.rows + 1) < m.dims.rows * m.dims.cols
  | sparse m => ∀ col < m.dims.cols, ∀ i, columnStart m.colPtrs col ≤ i →
      i < columnStart m.colPtrs (col + 1) →
        ∃ row : Nat, m.rowIndices[i]? = some (row : Int) ∧ i < m.storedCount ∧
          row + col * m.dims.rows < m.dims.rows * m.dims.cols

theorem WellFormed.readsWithin {s : Storage α} (h : s.WellFormed) {row col : Nat} (hr : row < s.dims.rows)
    (hc : col < s.dims.cols) : s.ReadsWithin row col := by
  cases s with
  | dense m => exact (Dims.offset_lt hr hc).trans_eq (Dense.WellFormed.length_data h).symm
  | diagonal m => trivial
  | sparse m =>
      have hp := Sparse.WellFormed.pointers h
      exact ⟨_, _, hp.getElem?_eq (Nat.le_of_lt hc), hp.getElem?_eq hc,
        hp.columnStart_mono (Nat.le_succ col) hc, hp.columnStart_le hc⟩

theorem WellFormed.writesWithin {s : Storage α} (h : s.WellFormed) : s.WritesWithin := by
  cases s with
  | dense m => trivial
  | diagonal m => exact fun k hk => Diagonal.WellFormed.diagonalOffset_lt h hk
  | sparse m =>
      intro col hc i _ hi
      have hp := Sparse.WellFormed.pointers h
      have hstored : i < m.values.length := Nat.lt_of_lt_of_le hi (hp.columnStart_le hc)
      have hi' : i < m.rowIndices.length := (Sparse.WellFormed.length_rowIndices h).symm ▸ hstored
      obtain ⟨hnn, hrow⟩ := Sparse.WellFormed.row_bounds h _ (List.getElem_mem hi')
      have hlt : m.dims.offset m.rowIndices[i].toNat col < m.dims.count := Dims.offset_lt (by omega) hc
      rw [Dims.offset, Nat.add_comm] at hlt
      refine ⟨m.rowIndices[i].toNat, ?_, hstored, hlt⟩
      rw [List.getElem?_eq_getElem hi', Int.toNat_of_nonneg hnn]

end Storage

/-- There is room for all entries of either domain. -/
def Matrix.Expandable : Matrix → Prop
  | real s => s.Expandable
  | complex s => s.Expandable

instance : DecidablePred Matrix.Expandable
  | .real s => inferInstanceAs (Decidable s.Expandable)
  | .complex s => inferInstanceAs (Decidable s.Expandable)

/-- Room for complex entries is room for real ones. -/
theorem Dims.Allocatable.expandable {m : Matrix} (h : m.dims.Allocatable) : m.Expandable := by
  cases m with
  | real s => exact Dims.Fits.expandable (h.fits (by decide))
  | complex s => exact Dims.Fits.expandable (h.fits (by decide))

namespace Matrix

def ReadsWithin : Matrix → (row col : Nat) → Prop
  | real s => s.ReadsWithin
  | complex s => s.ReadsWithin

def WritesWithin : Matrix → Prop
  | real s => s.WritesWithin
  | complex s => s.WritesWithin

/-! ## No step goes wrong -/

namespace WellFormed

variable {m : Matrix} (h : m.WellFormed)

include h

theorem checkedGet_eq (hn : m.dims.count < wordLimit) (row col : Nat) :
    m.checkedGet row col = .ok (m.get? row col) := by
  cases m with
  | real s => exact map_eq_ok.mpr ⟨_, Storage.WellFormed.checkedGet_eq h hn row col, rfl⟩
  | complex s => exact map_eq_ok.mpr ⟨_, Storage.WellFormed.checkedGet_eq h hn row col, rfl⟩

theorem checkedEntries_eq (hn : m.dims.count < wordLimit) : m.checkedEntries = .ok m.entries := by
  cases m with
  | real s => exact map_eq_ok.mpr ⟨_, Storage.WellFormed.checkedEntries_eq h hn, rfl⟩
  | complex s => exact map_eq_ok.mpr ⟨_, Storage.WellFormed.checkedEntries_eq h hn, rfl⟩

theorem checkedDisplay_eq (hn : m.dims.count < wordLimit) (precision : Option Nat) :
    m.checkedDisplay precision = .ok (m.display precision) := by
  cases m with
  | real s => exact map_eq_ok.mpr ⟨_, Storage.WellFormed.checkedText_eq h hn precision, rfl⟩
  | complex s => exact map_eq_ok.mpr ⟨_, Storage.WellFormed.checkedText_eq h hn precision, rfl⟩

theorem readsWithin {row col : Nat} (hr : row < m.dims.rows) (hc : col < m.dims.cols) :
    m.ReadsWithin row col := by
  cases m with
  | real s => exact Storage.WellFormed.readsWithin h hr hc
  | complex s => exact Storage.WellFormed.readsWithin h hr hc

theorem writesWithin : m.WritesWithin := by
  cases m with
  | real s => exact Storage.WellFormed.writesWithin h
  | complex s => exact Storage.WellFormed.writesWithin h

variable (hn : m.dims.count < wordLimit)

include hn

theorem checkedToDense_eq : m.checkedToDense = Checked.ifRoom m.Expandable m.toDense := by
  cases m with
  | real s =>
      rw [checkedToDense, Storage.WellFormed.checkedToDense_eq h hn]
      exact Checked.map_ifRoom _
  | complex s =>
      rw [checkedToDense, Storage.WellFormed.checkedToDense_eq h hn]
      exact Checked.map_ifRoom _

theorem checkedToComplexDense_eq :
    m.checkedToComplexDense = Checked.ifRoom m.dims.Allocatable m.toComplexDense := by
  have hroom := and_iff_right_of_imp (b := m.dims.Allocatable) fun hd => hd.expandable
  rw [← Checked.ifRoom_congr hroom]
  cases m with
  | real s =>
      rw [checkedToComplexDense, Storage.WellFormed.checkedToDense_eq h hn]
      refine Checked.ifRoom_bind_ifRoom ?_
      rw [(Storage.WellFormed.toDense h).checkedToComplex_eq, s.dims_toDense]
      rfl
  | complex s =>
      rw [checkedToComplexDense, Storage.WellFormed.checkedToDense_eq h hn]
      refine Checked.ifRoom_bind_ifRoom ?_
      rw [(Storage.WellFormed.toDense h).checkedToComplex_eq, s.dims_toDense]
      rfl

omit hn in
theorem checkedToSparse_eq (hd : m.dims.Allocatable) : m.checkedToSparse = .ok m.toSparse := by
  cases m with
  | real s =>
      rw [checkedToSparse, ← map_bind, Storage.WellFormed.checked_toSparse h hd (by decide)]
      rfl
  | complex s =>
      rw [checkedToSparse, ← map_bind, Storage.WellFormed.checked_toSparse h hd (by decide)]
      rfl

end WellFormed

/-- Every position of a reachable matrix is read, and written if there is room for all of them. -/
theorem positions_within_bounds {m : Matrix} (h : m.ReachableInMemory) :
    (∀ row col, m.checkedGet row col = .ok (m.get? row col)) ∧
    (∀ row < m.dims.rows, ∀ col < m.dims.cols, m.ReadsWithin row col) ∧
    (m.dims.Allocatable →
      m.WritesWithin ∧ m.checkedToDense = .ok m.toDense ∧
      m.checkedToComplexDense = .ok m.toComplexDense ∧ m.checkedToSparse = .ok m.toSparse ∧
      ∀ precision, m.checkedDisplay precision = .ok (m.display precision)) := by
  have hwf := h.wellFormed
  have hn := h.count_lt
  refine ⟨hwf.checkedGet_eq hn, fun _ hr _ hc => hwf.readsWithin hr hc,
    fun hd => ⟨hwf.writesWithin, ?_, ?_, hwf.checkedToSparse_eq hd, hwf.checkedDisplay_eq hn⟩⟩
  · rw [hwf.checkedToDense_eq hn, Checked.ifRoom_of hd.expandable]
  · rw [hwf.checkedToComplexDense_eq hn, Checked.ifRoom_of hd]

end Matrix

/-- It has as many positions as a word can count. -/
def tallSample : Diagonal Binary64 where
  dims := ⟨0xffffffffffffffff, 1⟩
  data := [.one]

theorem reachable_tallSample : (Matrix.real (.diagonal tallSample)).ReachableInMemory :=
  .build (.real (.diagonalAtOrigin .one ⟨0xffffffffffffffff, 1⟩)) (by decide) (by decide +kernel)

/-- Without room for all positions it can be read, but not spread out. -/
theorem Matrix.positions_within_bounds_samples :
    (Matrix.real (.diagonal tallSample)).ReachableInMemory ∧
    (Matrix.real (.diagonal tallSample)).checkedGet 0xfffffffffffffffe 0 = .ok (some (.real .zero)) ∧
    (Matrix.real (.diagonal tallSample)).checkedToDense = .error .capacity ∧
    (Matrix.real (.sparse descendingSample)).ReachableInMemory ∧
    (Matrix.real (.sparse descendingSample)).ReadsWithin 1 1 ∧
    (Matrix.real (.sparse descendingSample)).dims.Allocatable ∧
    (Matrix.real (.sparse descendingSample)).checkedToDense =
      .ok (.real (.dense ⟨⟨2, 2⟩, [⟨0x8000000000000000⟩, .one, .zero, .one]⟩)) := by
  obtain ⟨hget, _, _⟩ := positions_within_bounds reachable_tallSample
  obtain ⟨_, hreads, hroom⟩ := positions_within_bounds reachable_descendingSample
  have hallocatable : (Matrix.real (.sparse descendingSample)).dims.Allocatable := by
    unfold Dims.Allocatable
    decide
  refine ⟨reachable_tallSample, ?_, ?_, reachable_descendingSample, ?_, hallocatable, ?_⟩
  · exact (hget 0xfffffffffffffffe 0).trans (by decide +kernel)
  · rfl
  · exact hreads 1 (by decide) 1 (by decide)
  · exact (hroom hallocatable).2.1.trans (by decide +kernel)

end StoredMatrix
