import StoredMatrix.Proofs.CheckedValidation
import StoredMatrix.Proofs.Reachability

/-!
# Validating buffers safely

Pointers are used as positions by the same constructor that validates them. Its computation is given
here by checked steps in the order in which they are taken. No step goes wrong, whatever numbers the
buffers hold: each pointer is subtracted, cast and used only after the checks that make this safe.
-/

namespace StoredMatrix

/-- The values of a signed word. -/
def IsSignedWord (n : Int) : Prop := -(signedLimit : Int) ≤ n ∧ n < signedLimit

instance (n : Int) : Decidable (IsSignedWord n) := inferInstanceAs (Decidable (_ ∧ _))

namespace Sparse

/-! ## Pointers -/

/-- The first pointer below the one before it, counting positions from the given one. -/
def descentFrom? (previous : Int) (pointers : List Int) (position : Nat) : Option (Nat × Int) :=
  ((((previous :: pointers).zip pointers).zipIdx position).find? fun ((previous, pointer), _) =>
    decide (pointer < previous)).map fun ((_, pointer), position) => (position, pointer)

/-- One pointer follows the previous one; past the first, the two enclose a column. -/
def checkPointer (state : Int × Nat) (entry : Int × Nat) : Validation (Int × Nat) := do
  let (previous, widest) := state
  let (pointer, position) := entry
  ensure (previous ≤ pointer) (.nonAscending "col_ptrs" position pointer)
  if position = 0 then
    return (pointer, widest)
  else
    let difference ← Validation.step (Checked.subPointers pointer previous)
    let width ← Validation.step (Checked.toWord difference)
    return (pointer, max widest width)

/-- The width of the widest column between ascending pointers. -/
def checkPointers (colPtrs : List Int) : Validation Nat := do
  let (_, widest) ← colPtrs.zipIdx.foldlM checkPointer (0, 0)
  return widest

theorem ensure_bind_refuse_descentFrom? (previous pointer : Int) (pointers : List Int) (position : Nat) :
    (ensure (previous ≤ pointer) (.nonAscending "col_ptrs" position pointer) >>= fun _ =>
      refuse (descentFrom? pointer pointers (position + 1)) fun (position, pointer) =>
        .nonAscending "col_ptrs" position pointer) =
      refuse (descentFrom? previous (pointer :: pointers) position) fun (position, pointer) =>
        .nonAscending "col_ptrs" position pointer := by
  simp only [descentFrom?, List.zip_cons_cons, List.zipIdx_cons, List.find?_cons]
  by_cases h : pointer < previous
  · rw [decide_eq_true h, decide_eq_false (Int.not_le.mpr h)]
    rfl
  · rw [decide_eq_false h, decide_eq_true (Int.not_lt.mp h)]
    rfl

/-- No pointer below the previous one is subtracted from, so the difference is a word. -/
theorem checkPointer_yields {previous pointer : Int} (hnn : 0 ≤ previous) (hp : pointer < signedLimit)
    (widest : Nat) {position : Nat} (hposition : position ≠ 0) :
    (checkPointer (previous, widest) (pointer, position)).Yields
      (ensure (previous ≤ pointer) (.nonAscending "col_ptrs" position pointer) >>= fun _ =>
        pure (pointer, max widest (pointer - previous).toNat)) := by
  refine (Validation.yields_check _).bind fun _ hle => ?_
  rw [ensure_eq_ok, decide_eq_true_eq] at hle
  rw [if_neg hposition]
  have hdifference : Checked.subPointers pointer previous = .ok (pointer - previous) := by
    rw [Checked.subPointers_eq_ok]
    omega
  have hwidth : Checked.toWord (pointer - previous) = .ok (pointer - previous).toNat := by
    rw [Checked.toWord_eq_ok]
    simp only [signedLimit, wordLimit] at hp ⊢
    omega
  rw [Validation.step_bind hdifference, Validation.step_bind hwidth]
  exact Validation.yields_pure _

theorem foldlM_checkPointer_yields {previous : Int} {pointers : List Int} (hnn : 0 ≤ previous)
    (hs : ∀ p ∈ pointers, p < signedLimit) (widest : Nat) {position : Nat} (hposition : position ≠ 0) :
    ((pointers.zipIdx position).foldlM checkPointer (previous, widest)).Yields
      (refuse (descentFrom? previous pointers position)
        (fun (position, pointer) => .nonAscending "col_ptrs" position pointer) >>= fun _ =>
          pure (pointers.getLastD previous, (columnWidths (previous :: pointers)).foldl max widest)) := by
  -- the previous pointer stays non-negative, since the pointers have ascended so far
  induction pointers generalizing previous widest position with
  | nil => rfl
  | cons pointer pointers ih =>
      have hp := hs pointer List.mem_cons_self
      rw [List.zipIdx_cons, List.foldlM_cons, ← ensure_bind_refuse_descentFrom?, bind_assoc]
      refine (checkPointer_yields hnn hp widest hposition).bind_of_pure fun hle => ?_
      rw [ensure_eq_ok, decide_eq_true_eq] at hle
      rw [List.getLastD_cons]
      exact ih (Int.le_trans hnn hle) (fun p hp => hs p (List.mem_cons_of_mem pointer hp)) _ (by omega)

theorem checkPointers_yields {colPtrs : List Int} (hs : ∀ p ∈ colPtrs, p < signedLimit) :
    (checkPointers colPtrs).Yields
      (refuse (firstDescent? colPtrs)
        (fun (position, pointer) => .nonAscending "col_ptrs" position pointer) >>= fun _ =>
          pure (largest (columnWidths colPtrs))) := by
  cases colPtrs with
  | nil => rfl
  | cons first pointers =>
      have hrest : ∀ p ∈ pointers, p < signedLimit := fun p hp => hs p (List.mem_cons_of_mem first hp)
      rw [checkPointers, List.zipIdx_cons, List.foldlM_cons, bind_assoc]
      change Validation.Yields _ (refuse (descentFrom? 0 (first :: pointers) 0) _ >>= _)
      rw [← ensure_bind_refuse_descentFrom?, bind_assoc]
      -- the first pointer encloses no column with the one before it
      have hfirst : (checkPointer (0, 0) (first, 0)).Yields
          (ensure (0 ≤ first) (.nonAscending "col_ptrs" 0 first) >>= fun _ => pure (first, 0)) :=
        (Validation.yields_check _).bind fun _ _ => Validation.yields_pure _
      refine hfirst.bind_of_pure fun hle => ?_
      rw [ensure_eq_ok, decide_eq_true_eq] at hle
      exact (foldlM_checkPointer_yields hle hrest 0 (Nat.succ_ne_zero 0)).bind_of_pure fun _ =>
        Validation.yields_pure _

/-! ## Rows -/

/-- A row index is a word by the time it is compared as one. -/
def checkRow (rows : Nat) (entry : Int × Nat) : Validation PUnit := do
  let (row, position) := entry
  ensure (0 ≤ row) (.indexOutOfBounds "row_indices" position row rows)
  let word ← Validation.step (Checked.toWord row)
  ensure (word < rows) (.indexOutOfBounds "row_indices" position row rows)

theorem checkRow_yields {row : Int} (hs : row < signedLimit) (rows position : Nat) :
    (checkRow rows (row, position)).Yields
      (ensure (!(decide (row < 0) || decide ((rows : Int) ≤ row)))
        (.indexOutOfBounds "row_indices" position row rows)) := by
  have hcheck : (!(decide (row < 0) || decide ((rows : Int) ≤ row))) =
      (decide (0 ≤ row) && decide (row < rows)) := by
    rw [Bool.not_or, ← decide_not, ← decide_not]
    simp only [Int.not_lt, Int.not_le]
  rw [hcheck, ← ensure_bind_ensure]
  refine (Validation.yields_check _).bind fun _ hnn => ?_
  rw [ensure_eq_ok, decide_eq_true_eq] at hnn
  have hword : Checked.toWord row = .ok row.toNat := by
    rw [Checked.toWord_eq_ok]
    simp only [signedLimit, wordLimit] at hs ⊢
    omega
  rw [Validation.step_bind hword]
  simp only [Int.toNat_lt hnn]
  exact Validation.yields_check _

theorem checkRows_yields {rowIndices : List Int} (hs : ∀ r ∈ rowIndices, r < signedLimit) (rows : Nat) :
    (rowIndices.zipIdx.forM (checkRow rows)).Yields
      (refuse (firstStrayRow? rows rowIndices) fun (position, row) =>
        .indexOutOfBounds "row_indices" position row rows) := by
  rw [firstStrayRow?, refuse_map]
  refine Validation.Yields.forM_find? ?_
  rintro ⟨row, position⟩ hmem
  exact checkRow_yields (hs row (List.fst_mem_of_mem_zipIdx hmem)) rows position

end Sparse

/-! ## Widths -/

namespace PointersInto

variable {colPtrs : List Int} {cols count : Nat} (h : PointersInto colPtrs cols count)

include h

theorem width_le_largest {col : Nat} (hc : col < cols) :
    columnStart colPtrs (col + 1) - columnStart colPtrs col ≤ largest (columnWidths colPtrs) := by
  have hgreatest := h.isGreatest_largest (Nat.zero_lt_of_lt hc) (columnWidths_eq h.length_eq)
  exact Int.ofNat_le.mp (hgreatest.2 ⟨col, hc, h.columnWidth_eq hc⟩)

/-- No column is wider than the buffer is long. -/
theorem largest_le (hcols : 0 < cols) : largest (columnWidths colPtrs) ≤ count := by
  obtain ⟨col, hc, hwidth⟩ := (h.isGreatest_largest hcols (columnWidths_eq h.length_eq)).1
  have hstop : columnStart colPtrs (col + 1) ≤ count := h.columnStart_le hc
  rw [h.columnWidth_eq hc] at hwidth
  omega

end PointersInto

/-! ## Columns -/

namespace Buffers

variable {α : Type}

/-- Pointers cut the rows and the values into columns of at most the given width. -/
structure CutInto (b : Buffers α) (widest : Nat) : Prop where
  positive : b.dims.Positive
  count_lt : b.dims.count < wordLimit
  length_rowIndices : b.rowIndices.length = b.values.length
  pointers : PointersInto b.colPtrs b.dims.cols b.values.length
  widest_eq : widest = largest (columnWidths b.colPtrs)

theorem CutInto.widest_le {b : Buffers α} {widest : Nat} (h : b.CutInto widest) :
    widest ≤ b.values.length :=
  h.widest_eq ▸ h.pointers.largest_le h.positive.cols_pos

/-- The rows of a column are sorted in a buffer that was made for the widest column. -/
def checkColumn (b : Buffers α) (widest col : Nat) : Validation PUnit := do
  let (start, stop) ← Validation.step (b.matrix.checkedRange col)
  let rows ← Validation.step (Checked.slice b.rowIndices start stop)
  Validation.step (Checked.reserve rows.length widest)
  Sparse.refuse (Sparse.adjacentRepeat? rows.mergeSort) fun row =>
    .invalidArgument "row_indices" (.repeatedRow row col)

theorem CutInto.checkColumn_yields {b : Buffers α} {widest : Nat} (h : b.CutInto widest)
    (hcount : b.values.length < wordLimit) {col : Nat} (hc : col < b.dims.cols) :
    (b.checkColumn widest col).Yields
      (Sparse.refuse (Sparse.leastRepeated? (columnSlice b.colPtrs b.rowIndices col)) fun row =>
        .invalidArgument "row_indices" (.repeatedRow row col)) := by
  have hcols : b.dims.cols < wordLimit := Nat.lt_of_le_of_lt (Dims.cols_le_count h.positive) h.count_lt
  have hstop : columnStart b.colPtrs (col + 1) ≤ b.rowIndices.length :=
    h.length_rowIndices ▸ h.pointers.columnStart_le hc
  have hrange : b.matrix.checkedRange col =
      .ok (columnStart b.colPtrs col, columnStart b.colPtrs (col + 1)) :=
    h.pointers.checkedRange_eq hcols hcount hc
  have hslice : Checked.slice b.rowIndices (columnStart b.colPtrs col) (columnStart b.colPtrs (col + 1)) =
      .ok (columnSlice b.colPtrs b.rowIndices col) :=
    Checked.slice_eq_ok.mpr ⟨⟨h.pointers.columnStart_mono (Nat.le_succ col) hc, hstop⟩, rfl⟩
  have hreserve : Checked.reserve (columnSlice b.colPtrs b.rowIndices col).length widest = .ok () := by
    rw [Checked.reserve_eq_ok, h.pointers.length_columnSlice h.length_rowIndices hc, h.widest_eq]
    exact h.pointers.width_le_largest hc
  rw [checkColumn, Validation.step_bind hrange]
  dsimp only
  rw [Validation.step_bind hslice, Validation.step_bind hreserve, Sparse.adjacentRepeat?_mergeSort]
  exact Validation.yields_check _

variable [Element α]

theorem CutInto.checkColumns_yields {b : Buffers α} {widest : Nat} (h : b.CutInto widest)
    (hcount : b.values.length < wordLimit) :
    ((List.range b.dims.cols).forM (b.checkColumn widest)).Yields (b.check .repetition) := by
  rw [check, Sparse.firstRepeatedRow?]
  refine Validation.Yields.forM fun col hc => ?_
  rw [Sparse.refuse_map]
  exact h.checkColumn_yields hcount (List.mem_range.mp hc)

/-- What is left to check once the pointers are known to cut out columns. -/
def checkedInner (b : Buffers α) (widest : Nat) : Validation (Sparse α) := do
  Validation.step (Checked.reserve widest b.values.length)
  Validation.step (Checked.allocate widest 8)
  (List.range b.dims.cols).forM (b.checkColumn widest)
  ensure (countNonzero b.values ≠ 0) (.allZero "values")
  return { b.matrix with maxColEntries := widest }

theorem CutInto.checkedInner_yields {b : Buffers α} {widest : Nat} (h : b.CutInto widest)
    (hcount : b.values.length < inputLimit) :
    (b.checkedInner widest).Yields do
      b.check .repetition
      b.check .nonzero
      return b.matrix := by
  have hle := h.widest_le
  have hreserve : Checked.reserve widest b.values.length = .ok () := Checked.reserve_eq_ok.mpr hle
  have hallocate : Checked.allocate widest 8 = .ok () := by
    rw [Checked.allocate_eq_ok]
    simp only [inputLimit, signedLimit] at hcount ⊢
    omega
  rw [checkedInner, Validation.step_bind hreserve, Validation.step_bind hallocate]
  refine (h.checkColumns_yields (lt_wordLimit hcount)).bind fun _ _ => ?_
  refine (Validation.yields_check _).bind fun _ _ => ?_
  rw [h.widest_eq]
  exact Validation.yields_pure _

/-! ## From the outside in -/

/-- The checks that are made before columns are looked at, with the width of the widest column. -/
def outer (b : Buffers α) : Except Error Nat := do
  let _ ← b.dims.checkedCount "dims"
  b.check .pointerCount
  b.check .rowCount
  b.check .firstPointer
  b.check .ascent
  let widest := largest (columnWidths b.colPtrs)
  b.check .lastPointer
  b.check .rowRange
  return widest

theorem build_eq_outer (b : Buffers α) :
    b.build = b.outer >>= fun _ => do
      b.check .repetition
      b.check .nonzero
      return b.matrix := by
  simp only [build, Sparse.ofBuffers, outer, check, bind_assoc, pure_bind]
  rfl

theorem cutInto_of_outer {b : Buffers α} {widest : Nat} (h : b.outer = .ok widest) : b.CutInto widest := by
  rw [outer, Dims.checkedCount_bind_eq_ok] at h
  simp only [check, bind_eq_ok, ensure_eq_ok, Sparse.refuse_eq_ok, pure_eq_ok, decide_eq_true_eq, exists_const,
    Sparse.firstDescent?_eq_none] at h
  obtain ⟨hp, hn, hl, hrl, hfirst, hasc, hlast, -, rfl⟩ := h
  exact ⟨hp, hn, hrl, Sparse.pointersInto_iff.mpr ⟨hl, hfirst, hasc, hlast⟩, rfl⟩

/-- Each pointer is used by a step that the check before it has made safe. -/
def checkedOuter (b : Buffers α) : Validation Nat := do
  let _ ← b.dims.checkedCount "dims"
  ensure (Checked.sub? b.colPtrs.length 1 = some b.dims.cols)
    (.lengthMismatch "col_ptrs" (cappedSize (b.dims.cols + 1)) b.colPtrs.length)
  ensure (b.rowIndices.length = b.values.length)
    (.lengthMismatch "row_indices" b.values.length b.rowIndices.length)
  let first ← Validation.step (Checked.read b.colPtrs 0)
  ensure (first ≤ 0) (.invalidArgument "col_ptrs" (.firstPointer first))
  let widest ← Sparse.checkPointers b.colPtrs
  let last ← Validation.step (Checked.read b.colPtrs b.dims.cols)
  let count ← Validation.step (Checked.toPointer b.values.length)
  ensure (last = count) (.invalidArgument "col_ptrs" (.lastPointer b.values.length last))
  b.rowIndices.zipIdx.forM (Sparse.checkRow b.dims.rows)
  return widest

theorem checkedOuter_yields {b : Buffers α} (hptrs : ∀ p ∈ b.colPtrs, p < signedLimit)
    (hrows : ∀ r ∈ b.rowIndices, r < signedLimit) (hcount : b.rowIndices.length < signedLimit) :
    b.checkedOuter.Yields b.outer := by
  rw [checkedOuter, outer]
  refine (Validation.yields_check _).bind fun _ _ => ?_
  simp only [Checked.sub?_eq_some]
  refine (Validation.yields_check _).bind fun _ hl => ?_
  refine (Validation.yields_check _).bind fun _ hrl => ?_
  rw [ensure_eq_ok, decide_eq_true_eq] at hl hrl
  have hfirst : Checked.read b.colPtrs 0 = .ok (b.colPtrs.headD 0) := by
    rw [Checked.read_eq_ok, List.headD_eq_head?_getD, List.head?_eq_getElem?,
      List.getElem?_eq_getElem (by omega), Option.getD_some]
  have hlast : Checked.read b.colPtrs b.dims.cols = .ok (b.colPtrs.getLastD 0) :=
    Checked.read_eq_ok.mpr (getElem?_eq_getLastD hl 0)
  have htotal : Checked.toPointer b.values.length = .ok (b.values.length : Int) :=
    Checked.toPointer_eq_ok.mpr ⟨hrl ▸ hcount, rfl⟩
  rw [Validation.step_bind hfirst]
  refine (Validation.yields_check _).bind fun _ _ => ?_
  refine (Sparse.checkPointers_yields hptrs).bind_of_pure fun _ => ?_
  rw [Validation.step_bind hlast, Validation.step_bind htotal]
  refine (Validation.yields_check _).bind fun _ _ => ?_
  exact (Sparse.checkRows_yields hrows b.dims.rows).bind fun _ _ => Validation.yields_pure _

/-- The computation of the matrix, step by step. -/
def checkedBuild (b : Buffers α) : Validation (Sparse α) := b.checkedOuter >>= b.checkedInner

end Buffers

namespace Sparse

/-! ## Raw input -/

/-- Signed words, with no more rows than fit into memory. There is nothing else to be known of them. -/
structure RawIndices (colPtrs rowIndices : List Int) : Prop where
  isSignedWord_pointer : ∀ pointer ∈ colPtrs, IsSignedWord pointer
  isSignedWord_row : ∀ row ∈ rowIndices, IsSignedWord row
  length_rows : rowIndices.length < inputLimit

def checkedOfInterleaved (colPtrs rowIndices : List Int) (words : List Binary64) (dims : Dims) :
    Validation (Sparse Complex) := do
  let _ ← dims.checkedCount "dims"
  let count ← Validation.step (Checked.mul 2 rowIndices.length)
  ensure (words.length = count) (.lengthMismatch "values" count words.length)
  let values ← elementsOfWords "values" words
  Buffers.checkedBuild ⟨colPtrs, rowIndices, values, dims⟩

def checkedOfSplit (colPtrs rowIndices : List Int) (re im : List Binary64) (dims : Dims) :
    Validation (Sparse Complex) := do
  let _ ← dims.checkedCount "dims"
  ensure (im.length = re.length) (.lengthMismatch "imag" re.length im.length)
  ensure (rowIndices.length = re.length) (.lengthMismatch "row_indices" re.length rowIndices.length)
  Buffers.checkedBuild ⟨colPtrs, rowIndices, Complex.ofParts re im, dims⟩

section

variable {colPtrs rowIndices : List Int} (h : RawIndices colPtrs rowIndices)

include h

theorem RawIndices.checkedOuter_yields {α : Type} [Element α] (values : List α) (d : Dims) :
    (Buffers.mk colPtrs rowIndices values d).checkedOuter.Yields
      (Buffers.mk colPtrs rowIndices values d).outer :=
  Buffers.checkedOuter_yields (fun pointer hp => (h.isSignedWord_pointer pointer hp).2)
    (fun row hr => (h.isSignedWord_row row hr).2) (Nat.lt_trans h.length_rows (by decide))

theorem RawIndices.checkedBuild_yields {α : Type} [Element α] (values : List α) (d : Dims) :
    (Buffers.mk colPtrs rowIndices values d).checkedBuild.Yields (ofBuffers colPtrs rowIndices values d) := by
  change Validation.Yields _ (Buffers.mk colPtrs rowIndices values d).build
  rw [Buffers.build_eq_outer]
  refine (h.checkedOuter_yields values d).bind fun _ houter => ?_
  have hcut := Buffers.cutInto_of_outer houter
  exact hcut.checkedInner_yields (hcut.length_rowIndices ▸ h.length_rows)

theorem RawIndices.checkedOfInterleaved_yields (words : List Binary64) (d : Dims) :
    (checkedOfInterleaved colPtrs rowIndices words d).Yields (ofInterleaved colPtrs rowIndices words d) := by
  have hmul : Checked.mul 2 rowIndices.length = .ok (2 * rowIndices.length) := by
    have hlength := h.length_rows
    refine Checked.mul_eq_ok.mpr ⟨?_, rfl⟩
    simp only [inputLimit, wordLimit] at hlength ⊢
    omega
  rw [checkedOfInterleaved, ofInterleaved]
  refine (Validation.yields_check _).bind fun _ _ => ?_
  rw [Validation.step_bind hmul]
  refine (Validation.yields_check _).bind fun _ _ => ?_
  exact (Validation.yields_check _).bind fun values _ => h.checkedBuild_yields values d

theorem RawIndices.checkedOfSplit_yields (re im : List Binary64) (d : Dims) :
    (checkedOfSplit colPtrs rowIndices re im d).Yields (ofSplit colPtrs rowIndices re im d) := by
  rw [checkedOfSplit, ofSplit]
  refine (Validation.yields_check _).bind fun _ _ => ?_
  refine (Validation.yields_check _).bind fun _ _ => ?_
  exact (Validation.yields_check _).bind fun _ _ => h.checkedBuild_yields _ d

/--
Whatever numbers are given, validating them comes to a matrix or to a refusal. Columns are looked at
only if the pointers ascend from zero to the number of rows, and with no more room than that.
-/
theorem validation_never_faults :
    (∀ {α : Type} [Element α] (values : List α) (d : Dims),
      (Buffers.mk colPtrs rowIndices values d).checkedBuild.run =
          .ok (ofBuffers colPtrs rowIndices values d) ∧
        ∀ widest, (Buffers.mk colPtrs rowIndices values d).checkedOuter.run = .ok (.ok widest) →
          PointersInto colPtrs d.cols rowIndices.length ∧ widest ≤ values.length) ∧
    (∀ words d, (checkedOfInterleaved colPtrs rowIndices words d).run =
      .ok (ofInterleaved colPtrs rowIndices words d)) ∧
    ∀ re im d, (checkedOfSplit colPtrs rowIndices re im d).run =
      .ok (ofSplit colPtrs rowIndices re im d) := by
  refine ⟨fun values d => ⟨h.checkedBuild_yields values d, fun widest hrun => ?_⟩,
    h.checkedOfInterleaved_yields, h.checkedOfSplit_yields⟩
  have hcut := Buffers.cutInto_of_outer
    (Except.ok.inj ((h.checkedOuter_yields values d).symm.trans hrun))
  exact ⟨hcut.length_rowIndices ▸ hcut.pointers, hcut.widest_le⟩

end

/-- A pointer far beyond the rows is refused before a column is cut out by it. -/
theorem validation_never_faults_samples :
    RawIndices [0, 0x7fffffffffffffff] [0] ∧
    (Buffers.mk [0, 0x7fffffffffffffff] [0] [Binary64.one] ⟨1, 1⟩).checkedBuild.run =
      .ok (.error (.invalidArgument "col_ptrs" (.lastPointer 1 0x7fffffffffffffff))) ∧
    ((Buffers.mk [0, 0x7fffffffffffffff] [0] [Binary64.one] ⟨1, 1⟩).checkColumn 1 0).run =
      .error .outOfBounds ∧
    RawIndices [0, -0x8000000000000000] [0] ∧
    (checkedOfInterleaved [0, -0x8000000000000000] [0] [.one, .one] ⟨1, 1⟩).run =
      .ok (.error (.nonAscending "col_ptrs" 1 (-0x8000000000000000))) ∧
    Checked.subPointers (-0x8000000000000000) 1 = .error .overflow ∧
    RawIndices [] [] ∧
    (checkedOfSplit [] [] [] [] ⟨1, 0xffffffffffffffff⟩).run =
      .ok (.error (.lengthMismatch "col_ptrs" 0xffffffffffffffff 0)) ∧
    RawIndices [0, 2] [1, 0] ∧
    (Buffers.mk [0, 2] [1, 0] [Binary64.one, .one] ⟨2, 1⟩).checkedOuter.run = .ok (.ok 2) ∧
    PointersInto [0, 2] 1 2 := by
  have hfar : RawIndices [0, 0x7fffffffffffffff] [0] := ⟨by decide, by decide, by decide⟩
  have hbelow : RawIndices [0, -0x8000000000000000] [0] := ⟨by decide, by decide, by decide⟩
  have hempty : RawIndices [] [] := ⟨by decide, by decide, by decide⟩
  have hvalid : RawIndices [0, 2] [1, 0] := ⟨by decide, by decide, by decide⟩
  obtain ⟨hbuffers, -, -⟩ := validation_never_faults hfar
  obtain ⟨-, hinterleaved, -⟩ := validation_never_faults hbelow
  obtain ⟨-, -, hsplit⟩ := validation_never_faults hempty
  have houter : (Buffers.mk [0, 2] [1, 0] [Binary64.one, .one] ⟨2, 1⟩).checkedOuter.run = .ok (.ok 2) := rfl
  obtain ⟨-, hcolumns⟩ := (validation_never_faults hvalid).1 [Binary64.one, .one] ⟨2, 1⟩
  refine ⟨hfar, ?_, rfl, hbelow, ?_, rfl, hempty, ?_, hvalid, houter, (hcolumns 2 houter).1⟩
  · exact (hbuffers [Binary64.one] ⟨1, 1⟩).1.trans (congrArg Except.ok (by decide +kernel))
  · exact (hinterleaved [.one, .one] ⟨1, 1⟩).trans (congrArg Except.ok (by decide +kernel))
  · exact (hsplit [] [] ⟨1, 0xffffffffffffffff⟩).trans (congrArg Except.ok (by decide +kernel))

end Sparse

end StoredMatrix
