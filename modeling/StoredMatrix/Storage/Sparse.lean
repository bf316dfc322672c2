import StoredMatrix.Storage.Dense

/-!
# Sparse storage

A sparse matrix keeps the entries of each column side by side, with their rows in a buffer of the
same length. Pointers tell where each column starts; the one after the last column is the number
of stored entries. A column may list its rows in any order and may store zeros, but no row twice.
-/

namespace StoredMatrix

/-- A matrix compressed by columns. -/
structure Sparse (α : Type) where
  dims : Dims
  colPtrs : List Int
  rowIndices : List Int
  values : List α
  /-- The number of entries in the column that stores most. -/
  maxColEntries : Nat
deriving DecidableEq

/-! ## Columns of a buffer -/

/-- Where a column starts. -/
def columnStart (colPtrs : List Int) (col : Nat) : Nat := (colPtrs.getD col 0).toNat

/-- The part of a buffer that belongs to a column. -/
def columnSlice {β : Type} (colPtrs : List Int) (buffer : List β) (col : Nat) : List β :=
  let start := columnStart colPtrs col
  (buffer.drop start).take (columnStart colPtrs (col + 1) - start)

/-- The number of entries of each column. -/
def columnWidths (colPtrs : List Int) : List Nat :=
  List.zipWith (fun stop start => (stop - start).toNat) colPtrs.tail colPtrs

/-- The largest number of a list, zero if it is empty. -/
def largest (ns : List Nat) : Nat := ns.foldl max 0

namespace Sparse

variable {α : Type} [Element α]

/-! ## Reading -/

/-- The number of stored entries. -/
def storedCount (m : Sparse α) : Nat := m.values.length

/-- The entries of a column with their rows, in the order in which they are stored. -/
def column (m : Sparse α) (col : Nat) : List (Int × α) :=
  (columnSlice m.colPtrs m.rowIndices col).zip (columnSlice m.colPtrs m.values col)

/-- The entry at a position, or nothing outside the matrix. -/
def get? (m : Sparse α) (row col : Nat) : Option α :=
  if m.dims.contains row col then some (((m.column col).lookup (row : Int)).getD Entry.zero)
  else none

/-- The stored entries with their offsets in a column-major buffer. -/
def offsetEntries (m : Sparse α) : List (Nat × α) :=
  (List.range m.dims.cols).flatMap fun col =>
    (m.column col).map fun (row, a) => (m.dims.offset row.toNat col, a)

/-- The same matrix with all its entries, where there is room for them (`checkedToDense` asks for it). -/
def toDense (m : Sparse α) : Dense α :=
  ⟨m.dims, Dense.write (Dense.zeroBuffer m.dims) m.offsetEntries⟩

/-- The entries as complex numbers, stored at the same places. -/
def toComplex (m : Sparse α) : Sparse Complex :=
  { dims := m.dims
    colPtrs := m.colPtrs
    rowIndices := m.rowIndices
    values := promoteAll m.values
    maxColEntries := m.maxColEntries }

/-! ## Compressing -/

/-- The number of entries of a column that are not zero. -/
def countColumn (rows : Nat) (entry : Nat → α) : Nat :=
  ((List.range rows).filter fun row => Entry.isNonzero (entry row)).length

/-- A further column counts towards the total and towards the largest count. -/
def addCount (rows : Nat) (entry : Nat → Nat → α) (counts : Nat × Nat) (col : Nat) : Nat × Nat :=
  let n := countColumn rows (entry · col)
  (counts.1 + n, max counts.2 n)

/-- The number of entries that are not zero, and the largest such number of a column. -/
def countColumns (dims : Dims) (entry : Nat → Nat → α) : Nat × Nat :=
  (List.range dims.cols).foldl (addCount dims.rows entry) (0, 0)

/-- Buffers while they are being filled. -/
structure Filling (α : Type) where
  colPtrs : Array Int
  rowIndices : Array Int
  values : Array α

/-- An entry is added with its row, unless it is zero. -/
def Filling.addEntry (f : Filling α) (row : Nat) (a : α) : Filling α :=
  if Entry.isZero a then f
  else { f with rowIndices := f.rowIndices.push (Int.ofNat row), values := f.values.push a }

/-- A column starts where the entries before it end. -/
def Filling.addColumn (f : Filling α) (rows : Nat) (entry : Nat → α) : Filling α :=
  (List.range rows).foldl (fun f row => f.addEntry row (entry row))
    { f with colPtrs := f.colPtrs.push (Int.ofNat f.values.size) }

/-- The buffers with all columns, but for the pointer after the last one. -/
def fillColumns (dims : Dims) (entry : Nat → Nat → α) : Filling α :=
  (List.range dims.cols).foldl (fun f col => f.addColumn dims.rows (entry · col)) ⟨#[], #[], #[]⟩

/--
The matrix that stores the non-zero entries among those at all positions. They are counted in a
first pass, and filled in by a second one.
-/
def compress (arg : String) (dims : Dims) (entry : Nat → Nat → α) : Except Error (Sparse α) := do
  let (total, widest) := countColumns dims entry
  ensure (total ≠ 0) (.allZero arg)
  let filled := fillColumns dims entry
  return {
    dims := dims
    colPtrs := filled.colPtrs.toList ++ [Int.ofNat total]
    rowIndices := filled.rowIndices.toList
    values := filled.values.toList
    maxColEntries := widest }

/-- The sparse matrix whose rows are those of a grid. -/
def ofGrid (g : Grid α) : Except Error (Sparse α) := do
  let dims ← g.dims "data"
  compress "data" dims g.entry

/-- The complex sparse matrix whose rows are those of a real grid. -/
def ofRealGrid (g : Grid Binary64) : Except Error (Sparse Complex) := do
  let m ← ofGrid g
  return m.toComplex

/-- The complex sparse matrix whose real and imaginary parts stand in two grids. -/
def ofSplitGrids (re im : Grid Binary64) : Except Error (Sparse Complex) := do
  let dims ← re.pairedDims "real" "imag" im
  compress "real" dims fun row col => ⟨re.entry row col, im.entry row col⟩

/-! ## Checking buffers -/

/-- The first pointer below the one before it, or below zero at the start, with its position. -/
def firstDescent? (colPtrs : List Int) : Option (Nat × Int) :=
  (((0 :: colPtrs).zip colPtrs).zipIdx.find? fun ((previous, pointer), _) =>
    decide (pointer < previous)).map fun ((_, pointer), position) => (position, pointer)

/-- The first row index that is no row, with its position. -/
def firstStrayRow? (rows : Nat) (rowIndices : List Int) : Option (Nat × Int) :=
  (rowIndices.zipIdx.find? fun (row, _) => decide (row < 0) || decide ((rows : Int) ≤ row)).map
    fun (row, position) => (position, row)

/-- The least of the numbers that occur more than once. -/
def leastRepeated? (ns : List Int) : Option Int := (ns.filter fun n => 1 < ns.count n).min?

/-- The first column in which a row occurs more than once, with the least such row. -/
def firstRepeatedRow? (cols : Nat) (colPtrs rowIndices : List Int) : Option (Int × Nat) :=
  (List.range cols).findSome? fun col =>
    (leastRepeated? (columnSlice colPtrs rowIndices col)).map fun row => (row, col)

/-- Goes on if there is no witness, and is refused with the error that the witness calls for. -/
def refuse {β : Type} (witness : Option β) (error : β → Error) : Except Error Unit :=
  match witness with
  | none => .ok ()
  | some w => .error (error w)

/--
The matrix with the given buffers. They are checked from the outside in: dimensions, lengths,
pointers, rows, and last that some value is not zero.
-/
def ofBuffers (colPtrs rowIndices : List Int) (values : List α) (dims : Dims) :
    Except Error (Sparse α) := do
  let _ ← dims.checkedCount "dims"
  ensure (colPtrs.length = dims.cols + 1)
    (.lengthMismatch "col_ptrs" (cappedSize (dims.cols + 1)) colPtrs.length)
  ensure (rowIndices.length = values.length)
    (.lengthMismatch "row_indices" values.length rowIndices.length)
  ensure (colPtrs.headD 0 ≤ 0) (.invalidArgument "col_ptrs" (.firstPointer (colPtrs.headD 0)))
  refuse (firstDescent? colPtrs) fun (position, pointer) =>
    .nonAscending "col_ptrs" position pointer
  ensure (colPtrs.getLastD 0 = values.length)
    (.invalidArgument "col_ptrs" (.lastPointer values.length (colPtrs.getLastD 0)))
  refuse (firstStrayRow? dims.rows rowIndices) fun (position, row) =>
    .indexOutOfBounds "row_indices" position row dims.rows
  refuse (firstRepeatedRow? dims.cols colPtrs rowIndices) fun (row, col) =>
    .invalidArgument "row_indices" (.repeatedRow row col)
  ensure (countNonzero values ≠ 0) (.allZero "values")
  return {
    dims := dims
    colPtrs := colPtrs
    rowIndices := rowIndices
    values := values
    maxColEntries := largest (columnWidths colPtrs) }

/-- The complex matrix with the given buffers, the values as words. -/
def ofInterleaved (colPtrs rowIndices : List Int) (words : List Binary64) (dims : Dims) :
    Except Error (Sparse Complex) := do
  let _ ← dims.checkedCount "dims"
  ensure (words.length = 2 * rowIndices.length)
    (.lengthMismatch "values" (2 * rowIndices.length) words.length)
  let values ← elementsOfWords "values" words
  ofBuffers colPtrs rowIndices values dims

/-- The complex matrix with the given buffers, the parts of the values apart. -/
def ofSplit (colPtrs rowIndices : List Int) (re im : List Binary64) (dims : Dims) :
    Except Error (Sparse Complex) := do
  let _ ← dims.checkedCount "dims"
  ensure (im.length = re.length) (.lengthMismatch "imag" re.length im.length)
  ensure (rowIndices.length = re.length)
    (.lengthMismatch "row_indices" re.length rowIndices.length)
  ofBuffers colPtrs rowIndices (Complex.ofParts re im) dims

end Sparse

/-- The sparse matrix that stores the non-zero entries of a dense one. -/
def Dense.toSparse {α : Type} [Element α] (m : Dense α) : Except Error (Sparse α) :=
  Sparse.compress "data" m.dims m.entry

end StoredMatrix
