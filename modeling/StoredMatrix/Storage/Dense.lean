import StoredMatrix.Grid.Basic

/-!
# Dense storage

A dense matrix keeps every entry, column by column, in one buffer.
-/

namespace StoredMatrix

/-- A matrix with all its entries, column by column. -/
structure Dense (α : Type) where
  dims : Dims
  data : List α
deriving DecidableEq

namespace Dense

variable {α : Type} [Element α]

/-! ## Reading -/

/-- The entry at a position, or nothing outside the matrix. -/
def get? (m : Dense α) (row col : Nat) : Option α :=
  if m.dims.contains row col then m.data[m.dims.offset row col]? else none

/-- The entry at a position, zero outside the matrix. -/
def entry (m : Dense α) (row col : Nat) : α := m.data.getD (m.dims.offset row col) Entry.zero

/-- Whether every entry is zero. -/
def isZero (m : Dense α) : Bool := m.data.all Entry.isZero

/-- The entries as complex numbers. -/
def toComplex (m : Dense α) : Dense Complex := ⟨m.dims, promoteAll m.data⟩

/-! ## Building -/

/-- The matrix whose rows are those of a grid. -/
def ofGrid (g : Grid α) : Except Error (Dense α) := do
  let dims ← g.dims "data"
  return ⟨dims, (List.range dims.cols).flatMap g.column⟩

/-- The matrix with the given entries, column by column. -/
def ofColumnMajor (data : List α) (dims : Dims) : Except Error (Dense α) := do
  let count ← dims.checkedCount "data"
  ensure (data.length = count) (.lengthMismatch "data" count data.length)
  return ⟨dims, data⟩

/-- The matrix of a single entry. -/
def scalar (a : α) : Dense α := ⟨⟨1, 1⟩, [a]⟩

/-- The matrix of a single row. -/
def ofRow (row : List α) : Except Error (Dense α) := ofColumnMajor row ⟨1, row.length⟩

/-- A buffer of zeros for every position. -/
def zeroBuffer (dims : Dims) : List α := List.replicate dims.count Entry.zero

/-- A buffer after some of its entries have been written, one after the other. -/
def write (buffer : List α) (entries : List (Nat × α)) : List α :=
  entries.foldl (fun buffer (offset, a) => buffer.set offset a) buffer

/-! ## Logical matrices -/

/-- One for a number that is not zero, also for a NaN, and zero for either zero. -/
def truth (x : Binary64) : Binary64 := if x.isZero then .zero else .one

/-- The matrix with ones where another is not zero. -/
def toLogical (m : Dense Binary64) : Dense Binary64 := ⟨m.dims, m.data.map truth⟩

/-- The logical matrix whose rows are those of a grid. -/
def logicalOfGrid (g : Grid Binary64) : Except Error (Dense Binary64) := do
  let m ← ofGrid g
  return m.toLogical

/-- The logical matrix with the given entries, column by column. -/
def logicalOfColumnMajor (data : List Binary64) (dims : Dims) : Except Error (Dense Binary64) := do
  let m ← ofColumnMajor data dims
  return m.toLogical

/-! ## Complex matrices from real input -/

/-- The complex matrix whose rows are those of a real grid. -/
def ofRealGrid (g : Grid Binary64) : Except Error (Dense Complex) := do
  let m ← ofGrid g
  return m.toComplex

/-- The complex matrix whose real and imaginary parts stand in two grids. -/
def ofSplitGrids (re im : Grid Binary64) : Except Error (Dense Complex) := do
  let dims ← re.pairedDims "real" "imag" im
  return ⟨dims, Complex.ofParts ((List.range dims.cols).flatMap re.column)
    ((List.range dims.cols).flatMap im.column)⟩

/--
The complex matrix stored in a buffer of words. As many words as positions are the real parts,
twice as many are real and imaginary parts in turn.
-/
def ofInterleaved (words : List Binary64) (dims : Dims) : Except Error (Dense Complex) := do
  let count ← dims.checkedCount "data"
  if words.length = count then
    return ⟨dims, promoteAll words⟩
  else
    ensure (words.length = 2 * count) (.lengthMismatch "data" (cappedSize (2 * count)) words.length)
    let data ← elementsOfWords "data" words
    return ⟨dims, data⟩

/-- The complex matrix whose real and imaginary parts are given column by column. -/
def ofSplit (re im : List Binary64) (dims : Dims) : Except Error (Dense Complex) := do
  let count ← dims.checkedCount "real"
  ensure (re.length = count) (.lengthMismatch "real" count re.length)
  ensure (im.length = count) (.lengthMismatch "imag" count im.length)
  return ⟨dims, Complex.ofParts re im⟩

end Dense

end StoredMatrix
