import StoredMatrix.Matrix.Basic

/-!
# Constructions and conversions

All ways to build a matrix from input, and all ways to turn one matrix into another, as data. A
matrix is reachable if some run of constructions and conversions ends in it.
-/

namespace StoredMatrix

/-- The ways to build a matrix from elements of its own kind. -/
inductive Layout (α : Type)
  | denseGrid (grid : Grid α)
  | denseColumnMajor (data : List α) (dims : Dims)
  | denseScalar (value : α)
  | denseRow (row : List α)
  | diagonalSquare (values : List α)
  | diagonal (values : List α) (dims : Dims)
  | diagonalAtOrigin (value : α) (dims : Dims)
  | diagonalScalar (value : α)
  | sparseGrid (grid : Grid α)
  | sparseBuffers (colPtrs rowIndices : List Int) (values : List α) (dims : Dims)

/-- The matrix that is built. -/
def Layout.build {α : Type} [Element α] : Layout α → Except Error (Storage α)
  | denseGrid grid => .dense <$> Dense.ofGrid grid
  | denseColumnMajor data dims => .dense <$> Dense.ofColumnMajor data dims
  | denseScalar value => .ok (.dense (Dense.scalar value))
  | denseRow row => .dense <$> Dense.ofRow row
  | diagonalSquare values => .diagonal <$> Diagonal.square values
  | diagonal values dims => .diagonal <$> Diagonal.ofValues values dims
  | diagonalAtOrigin value dims => .diagonal <$> Diagonal.atOrigin value dims
  | diagonalScalar value => .ok (.diagonal (Diagonal.scalar value))
  | sparseGrid grid => .sparse <$> Sparse.ofGrid grid
  | sparseBuffers colPtrs rowIndices values dims =>
    .sparse <$> Sparse.ofBuffers colPtrs rowIndices values dims

/-- The ways to build a logical matrix, whose entries are ones and zeros. -/
inductive LogicalLayout
  | grid (grid : Grid Binary64)
  | columnMajor (data : List Binary64) (dims : Dims)

/-- The matrix that is built. -/
def LogicalLayout.build : LogicalLayout → Except Error (Storage Binary64)
  | grid g => .dense <$> Dense.logicalOfGrid g
  | columnMajor data dims => .dense <$> Dense.logicalOfColumnMajor data dims

/-- The ways to build a complex matrix from real input. -/
inductive PartsLayout
  | denseRealGrid (grid : Grid Binary64)
  | denseSplitGrids (re im : Grid Binary64)
  | denseInterleaved (words : List Binary64) (dims : Dims)
  | denseSplit (re im : List Binary64) (dims : Dims)
  | diagonalSquareReal (values : List Binary64)
  | diagonalReal (values : List Binary64) (dims : Dims)
  | diagonalSquareSplit (re im : List Binary64)
  | diagonalSplit (re im : List Binary64) (dims : Dims)
  | sparseRealGrid (grid : Grid Binary64)
  | sparseSplitGrids (re im : Grid Binary64)
  | sparseInterleaved (colPtrs rowIndices : List Int) (words : List Binary64) (dims : Dims)
  | sparseSplit (colPtrs rowIndices : List Int) (re im : List Binary64) (dims : Dims)

/-- The matrix that is built. -/
def PartsLayout.build : PartsLayout → Except Error (Storage Complex)
  | denseRealGrid grid => .dense <$> Dense.ofRealGrid grid
  | denseSplitGrids re im => .dense <$> Dense.ofSplitGrids re im
  | denseInterleaved words dims => .dense <$> Dense.ofInterleaved words dims
  | denseSplit re im dims => .dense <$> Dense.ofSplit re im dims
  | diagonalSquareReal values => .diagonal <$> Diagonal.squareOfReal values
  | diagonalReal values dims => .diagonal <$> Diagonal.ofReal values dims
  | diagonalSquareSplit re im => .diagonal <$> Diagonal.squareOfSplit re im
  | diagonalSplit re im dims => .diagonal <$> Diagonal.ofSplit re im dims
  | sparseRealGrid grid => .sparse <$> Sparse.ofRealGrid grid
  | sparseSplitGrids re im => .sparse <$> Sparse.ofSplitGrids re im
  | sparseInterleaved colPtrs rowIndices words dims =>
    .sparse <$> Sparse.ofInterleaved colPtrs rowIndices words dims
  | sparseSplit colPtrs rowIndices re im dims =>
    .sparse <$> Sparse.ofSplit colPtrs rowIndices re im dims

/-- The ways to build a matrix. -/
inductive Construction
  | real (layout : Layout Binary64)
  | logical (layout : LogicalLayout)
  | complex (layout : Layout Complex)
  | parts (layout : PartsLayout)

/-- The matrix that is built. -/
def Construction.build : Construction → Except Error Matrix
  | real layout => .real <$> layout.build
  | logical layout => .real <$> layout.build
  | complex layout => .complex <$> layout.build
  | parts layout => .complex <$> layout.build

/-- The ways to turn a matrix into another. -/
inductive Conversion
  | toDense
  | toComplex
  | toComplexDense
  | toRealDense
  | toSparse
deriving DecidableEq

/-- The matrix that a conversion yields, where there is room for it. -/
def Conversion.apply : Conversion → Matrix → Except Error Matrix
  | toDense, m => .ok m.toDense
  | toComplex, m => .ok m.toComplex
  | toComplexDense, m => .ok (.complex (.dense m.toComplexDense))
  | toRealDense, m => m.toRealDense.map fun d => .real (.dense d)
  | toSparse, m => m.toSparse

/--
The matrices in which some run of constructions and conversions ends, those among them for which there is
no room in memory included.
-/
inductive Matrix.Reachable : Matrix → Prop
  | build {m : Matrix} (c : Construction) : c.build = .ok m → Reachable m
  | convert {m n : Matrix} (c : Conversion) : Reachable m → c.apply m = .ok n → Reachable n

end StoredMatrix
