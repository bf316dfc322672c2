import StoredMatrix.Storage.Diagonal
import StoredMatrix.Storage.Sparse
import StoredMatrix.Tolerance

/-!
# Storage

A matrix of elements of one kind is stored in one of three shapes. What can be asked of a matrix
can be asked of each shape, and every shape can be spread out to the dense one. Here the room for the
dense one is taken for granted.
-/

namespace StoredMatrix

/-- How the entries of a matrix are laid out. -/
inductive Shape
  | dense
  | diagonal
  | sparse
deriving DecidableEq

/-- The name under which a shape is shown. -/
def Shape.name : Shape → String
  | dense => "dense"
  | diagonal => "diagonal"
  | sparse => "sparse"

/-- A matrix of elements of one kind in some shape. -/
inductive Storage (α : Type)
  | dense (m : Dense α)
  | diagonal (m : Diagonal α)
  | sparse (m : Sparse α)
deriving DecidableEq

namespace Storage

variable {α : Type} [Element α]

/-! ## Reading -/

/-- How the entries are laid out. -/
def shape : Storage α → Shape
  | dense _ => .dense
  | diagonal _ => .diagonal
  | sparse _ => .sparse

/-- The number of rows and of columns. -/
def dims : Storage α → Dims
  | dense m => m.dims
  | diagonal m => m.dims
  | sparse m => m.dims

/-- The stored elements. -/
def elements : Storage α → List α
  | dense m => m.data
  | diagonal m => m.data
  | sparse m => m.values

/-- The words of the stored elements. -/
def raw (s : Storage α) : List Binary64 := rawWords s.elements

/-- The entry at a position, or nothing outside the matrix. -/
def get? : Storage α → (row col : Nat) → Option α
  | dense m => m.get?
  | diagonal m => m.get?
  | sparse m => m.get?

/-- The number of bytes of a word. -/
def wordBytes : Nat := 8

/-- The number of bytes of the stored elements, and of the buffers that place them. -/
def memoryUsage (s : Storage α) : Nat :=
  let elementBytes := s.elements.length * (Element.width α * wordBytes)
  match s with
  | sparse m => (m.dims.cols + 1) * wordBytes + m.storedCount * wordBytes + elementBytes
  | _ => elementBytes

/-- The entries row by row. -/
def entries (s : Storage α) : Grid α :=
  (List.range s.dims.rows).map fun row =>
    (List.range s.dims.cols).map fun col => (s.get? row col).getD Entry.zero

/-! ## Converting -/

/-- The same matrix with all its entries, where there is room for them (`checkedToDense` asks for it). -/
def toDense : Storage α → Dense α
  | dense m => m
  | diagonal m => m.toDense
  | sparse m => m.toDense

/-- The entries as complex numbers, in the same shape. -/
def toComplex : Storage α → Storage Complex
  | dense m => .dense m.toComplex
  | diagonal m => .diagonal m.toComplex
  | sparse m => .sparse m.toComplex

/-! ## Comparing -/

/-- Whether two sparse matrices store entries at the same places and in the same order. -/
def samePattern (a b : Sparse α) : Bool :=
  decide (a.colPtrs = b.colPtrs) && decide (a.rowIndices = b.rowIndices)

/-- Whether two matrices have the same shape, dimensions and places of stored entries. -/
def sameLayout (a b : Storage α) : Bool :=
  decide (a.dims = b.dims) &&
    match a, b with
    | dense _, dense _ => true
    | diagonal _, diagonal _ => true
    | sparse m, sparse n => samePattern m n
    | _, _ => false

/-- Equality of what is stored, bit by bit. -/
def structEq (a b : Storage α) : Bool := sameLayout a b && decide (a.raw = b.raw)

/-- Equality of what is stored, with words compared under a tolerance. -/
def fuzzyEq (t : Tolerance) (a b : Storage α) : Bool := sameLayout a b && t.allClose a.raw b.raw

/-! ## Text -/

/-- The text of a row. -/
def rowText (precision : Option Nat) (row : List α) : List Char :=
  ['['] ++ [',', ' '].intercalate (row.map (Element.text precision)) ++ [']']

/-- The text of all rows, one a line. -/
def text (precision : Option Nat) (s : Storage α) : List Char :=
  ['\n'].intercalate (s.entries.map (rowText precision))

end Storage

end StoredMatrix
