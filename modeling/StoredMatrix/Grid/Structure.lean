import StoredMatrix.Grid.Basic

/-!
# Structure of square grids

A structure says at which positions of a square grid an entry may differ from zero. A grid has
the structure if every other entry is zero.
-/

namespace StoredMatrix

/-- The structures that a square grid may have. -/
inductive Structure
  | upperTriangular
  | lowerTriangular
  | upperHessenberg
  | lowerHessenberg
  | tridiagonal
  /-- The entries lie on as many diagonals around the main one as the bandwidth says. -/
  | banded (bandwidth : Int)
deriving DecidableEq

namespace Structure

/-- The words for a grid of the structure. -/
def name : Structure → String
  | upperTriangular => "upper triangular"
  | lowerTriangular => "lower triangular"
  | upperHessenberg => "upper Hessenberg"
  | lowerHessenberg => "lower Hessenberg"
  | tridiagonal => "tridiagonal"
  | banded _ => "banded"

/-- How many diagonals a position is away from the main one. -/
def diagonalDistance (row col : Nat) : Nat := (row - col) + (col - row)

/-- Whether an entry at the position may differ from zero. -/
def admits : Structure → (row col : Nat) → Bool
  | upperTriangular, row, col => decide (row ≤ col)
  | lowerTriangular, row, col => decide (col ≤ row)
  | upperHessenberg, row, col => decide (row ≤ col + 1)
  | lowerHessenberg, row, col => decide (col ≤ row + 1)
  | tridiagonal, row, col => decide (diagonalDistance row col ≤ 1)
  | banded bandwidth, row, col => decide (diagonalDistance row col ≤ (bandwidth.toNat - 1) / 2)

/-- The bandwidth that takes in every diagonal of a square grid. -/
def largestBandwidth (order : Nat) : Nat := 2 * order - 1

/-- A bandwidth has to be odd and positive, and may not exceed the largest of the order. -/
def checkOrder : Structure → (order : Nat) → Except Error Unit
  | banded bandwidth, order =>
    ensure (decide (1 ≤ bandwidth) && decide (bandwidth % 2 ≠ 0) &&
        decide (bandwidth ≤ largestBandwidth order))
      (.invalidBandwidth bandwidth order (largestBandwidth order))
  | _, _ => .ok ()

end Structure

namespace Grid

variable {α : Type}

/-- The number of rows of a grid that has as many columns. -/
def squareOrder (g : Grid α) : Except Error Nat := do
  let dims ← g.dims "matrix"
  ensure (dims.rows = dims.cols) (.invalidArgument "matrix" (.notSquare dims))
  return dims.rows

variable [Entry α]

/-- Whether every entry that a structure does not admit is zero. -/
def zeroOutside (s : Structure) (g : Grid α) : Bool :=
  g.zipIdx.all fun (entries, row) =>
    entries.zipIdx.all fun (a, col) => s.admits row col || Entry.isZero a

/-- Whether a square grid has a structure. -/
def has (s : Structure) (g : Grid α) : Except Error Bool := do
  let order ← g.squareOrder
  s.checkOrder order
  return g.zeroOutside s

/-- The grid itself, if it has a structure. -/
def require (s : Structure) (g : Grid α) : Except Error (Grid α) := do
  let holds ← g.has s
  ensure holds (.invalidArgument "matrix" (.notOfStructure s.name))
  return g

/-- A square grid with zeros in place of every entry below the main diagonal. -/
def removeLowerTriangle (g : Grid α) : Except Error (Grid α) := do
  let _ ← g.squareOrder
  return g.mapIdx fun row entries =>
    entries.mapIdx fun col a => if col < row then Entry.zero else a

end Grid

end StoredMatrix
