/-!
# Dimensions

A matrix has a number of rows and of columns. Its positions are counted column by column, so the
position of an entry is an offset into a column-major buffer. Sizes are machine words, and
so is the number of positions.
-/

namespace StoredMatrix

/-- The number of values of a machine word, `2 ^ 64`, above every size. -/
def wordLimit : Nat := 0x10000000000000000

/-- A count, or the largest size if the count is beyond it. -/
def cappedSize (n : Nat) : Nat := min n (wordLimit - 1)

/-- A number of rows and a number of columns. -/
structure Dims where
  rows : Nat
  cols : Nat
deriving DecidableEq

namespace Dims

/-- The number of positions. -/
def count (d : Dims) : Nat := d.rows * d.cols

/-- Whether a position lies within the dimensions. -/
def contains (d : Dims) (row col : Nat) : Bool := decide (row < d.rows) && decide (col < d.cols)

/-- The offset of a position when positions are counted column by column. -/
def offset (d : Dims) (row col : Nat) : Nat := col * d.rows + row

/-- The offset of the position `(k, k)`: each step along the diagonal skips a column and a row. -/
def diagonalOffset (d : Dims) (k : Nat) : Nat := k * (d.rows + 1)

/-- The length of the longest diagonal. -/
def diagonalLength (d : Dims) : Nat := min d.rows d.cols

end Dims

end StoredMatrix
