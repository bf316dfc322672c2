import StoredMatrix.Storage.Basic

/-!
# Matrices

A matrix is real or complex, and stored in one of three shapes. Structural equality compares what
is stored, fuzzy equality compares it under a tolerance, and mathematical equality compares the
entries at all positions, whatever the shapes and domains. What is said of conversions and of
mathematical equality here is their outcome where there is room for the buffers that they fill; the
checked functions ask for the room first, and fail where there is none.
-/

namespace StoredMatrix

/-- A number of either domain. -/
inductive Scalar
  | real (x : Binary64)
  | complex (z : Complex)
deriving DecidableEq

/-- A number as a complex one. -/
def Scalar.promote : Scalar → Complex
  | real x => .ofReal x
  | complex z => z

/-- A matrix of either domain, in any shape. -/
inductive Matrix
  | real (s : Storage Binary64)
  | complex (s : Storage Complex)
deriving DecidableEq

namespace Matrix

/-! ## Reading -/

/-- What kind of number the entries are. -/
def domain : Matrix → Domain
  | real _ => .real
  | complex _ => .complex

/-- How the entries are laid out. -/
def shape : Matrix → Shape
  | real s => s.shape
  | complex s => s.shape

/-- The number of rows and of columns. -/
def dims : Matrix → Dims
  | real s => s.dims
  | complex s => s.dims

/-- The words of the stored elements. -/
def raw : Matrix → List Binary64
  | real s => s.raw
  | complex s => s.raw

/-- The number of bytes of what is stored. -/
def memoryUsage : Matrix → Nat
  | real s => s.memoryUsage
  | complex s => s.memoryUsage

/-- The entry at a position, or nothing outside the matrix. -/
def get? : Matrix → (row col : Nat) → Option Scalar
  | real s, row, col => (s.get? row col).map .real
  | complex s, row, col => (s.get? row col).map .complex

/-- The entries row by row. -/
def entries : Matrix → Grid Scalar
  | real s => s.entries.map (·.map .real)
  | complex s => s.entries.map (·.map .complex)

/-- The text of all rows, one a line, with the given number of places if there is one. -/
def text (precision : Option Nat) : Matrix → List Char
  | real s => s.text precision
  | complex s => s.text precision

/-- The text of a matrix as a string. -/
def display (precision : Option Nat) (m : Matrix) : String := String.ofList (m.text precision)

/-! ## Converting -/

/-- The same matrix with all its entries. -/
def toDense : Matrix → Matrix
  | real s => .real (.dense s.toDense)
  | complex s => .complex (.dense s.toDense)

/-- The entries as complex numbers, in the same shape. -/
def toComplex : Matrix → Matrix
  | real s => .complex s.toComplex
  | complex s => .complex s.toComplex

/-- All entries as complex numbers. -/
def toComplexDense : Matrix → Dense Complex
  | real s => s.toDense.toComplex
  | complex s => s.toDense.toComplex

/-- All entries of a real matrix; a complex one is never narrowed. -/
def toRealDense : Matrix → Except Error (Dense Binary64)
  | real s => .ok s.toDense
  | complex _ => .error (.domainDemotion .complex .real)

/-- The non-zero entries only, in the same domain. -/
def toSparse : Matrix → Except Error Matrix
  | real s => s.toDense.toSparse.map fun m => .real (.sparse m)
  | complex s => s.toDense.toSparse.map fun m => .complex (.sparse m)

/-! ## Comparing -/

/-- Refuses two matrices of different dimensions. -/
def ensureConformant (a b : Matrix) : Except Error Unit :=
  ensure (a.dims = b.dims) (.nonConformant a.dims b.dims)

/-- Equality of domain and of what is stored, bit by bit. -/
def structEq : Matrix → Matrix → Bool
  | real a, real b => a.structEq b
  | complex a, complex b => a.structEq b
  | _, _ => false

/-- Equality of domain and of what is stored, with words compared under a tolerance. -/
def fuzzyEq (t : Tolerance) : Matrix → Matrix → Bool
  | real a, real b => Storage.fuzzyEq t a b
  | complex a, complex b => Storage.fuzzyEq t a b
  | _, _ => false

/--
Equality of dimensions and of the entries at all positions under a tolerance, in the smallest
domain that holds both matrices. It compares dense forms, so `checkedMathsEq` needs room for them.
-/
def mathsEq (t : Tolerance) (a b : Matrix) : Bool :=
  decide (a.dims = b.dims) &&
    match a.domain.common b.domain with
    | .complex => Storage.fuzzyEq t (.dense a.toComplexDense) (.dense b.toComplexDense)
    | .real =>
      match a.toRealDense, b.toRealDense with
      | .ok m, .ok n => Storage.fuzzyEq t (.dense m) (.dense n)
      | _, _ => false

end Matrix

end StoredMatrix
