import StoredMatrix.Storage.Dense

/-!
# Diagonal storage

A diagonal matrix keeps a run of entries from the start of its main diagonal. Past the run, and
off the diagonal, every entry is zero; the run may be shorter than the diagonal.
-/

namespace StoredMatrix

/-- A matrix with the start of its main diagonal. -/
structure Diagonal (α : Type) where
  dims : Dims
  data : List α
deriving DecidableEq

namespace Diagonal

variable {α : Type} [Element α]

/-! ## Reading -/

/-- The entry at a position, or nothing outside the matrix. -/
def get? (m : Diagonal α) (row col : Nat) : Option α :=
  if m.dims.contains row col then
    some (if row = col then m.data.getD row Entry.zero else Entry.zero)
  else none

/-- The stored entries with their offsets in a column-major buffer. -/
def offsetEntries (m : Diagonal α) : List (Nat × α) :=
  m.data.mapIdx fun k a => (m.dims.diagonalOffset k, a)

/-- The same matrix with all its entries, where there is room for them (`checkedToDense` asks for it). -/
def toDense (m : Diagonal α) : Dense α :=
  ⟨m.dims, Dense.write (Dense.zeroBuffer m.dims) m.offsetEntries⟩

/-- The entries as complex numbers. -/
def toComplex (m : Diagonal α) : Diagonal Complex := ⟨m.dims, promoteAll m.data⟩

/-! ## Building -/

/-- The square matrix with the given main diagonal. -/
def square (values : List α) : Except Error (Diagonal α) := do
  let dims : Dims := ⟨values.length, values.length⟩
  let _ ← dims.checkedCount "diagonal"
  return ⟨dims, values⟩

/-- The matrix with the given main diagonal, cut or filled up with zeros to its length. -/
def ofValues (values : List α) (dims : Dims) : Except Error (Diagonal α) := do
  let _ ← dims.checkedCount "diagonal"
  return ⟨dims, fitTo dims.diagonalLength values⟩

/-- The matrix that stores its first entry only. -/
def atOrigin (a : α) (dims : Dims) : Except Error (Diagonal α) := do
  let _ ← dims.checkedCount "diagonal"
  return ⟨dims, [a]⟩

/-- The matrix of a single entry. -/
def scalar (a : α) : Diagonal α := ⟨⟨1, 1⟩, [a]⟩

/-! ## Complex matrices from real input -/

/-- The square complex matrix with a real main diagonal. -/
def squareOfReal (values : List Binary64) : Except Error (Diagonal Complex) := do
  let m ← square values
  return m.toComplex

/-- The complex matrix with a real main diagonal, cut or filled up with zeros. -/
def ofReal (values : List Binary64) (dims : Dims) : Except Error (Diagonal Complex) := do
  let m ← ofValues values dims
  return m.toComplex

/-- The square complex matrix whose main diagonal has the given parts. -/
def squareOfSplit (re im : List Binary64) : Except Error (Diagonal Complex) := do
  ensure (im.length = re.length) (.lengthMismatch "imag" re.length im.length)
  square (Complex.ofParts re im)

/-- The complex matrix whose main diagonal has the given parts, cut or filled up with zeros. -/
def ofSplit (re im : List Binary64) (dims : Dims) : Except Error (Diagonal Complex) := do
  ensure (im.length = re.length) (.lengthMismatch "imag" re.length im.length)
  ofValues (Complex.ofParts re im) dims

end Diagonal

end StoredMatrix
