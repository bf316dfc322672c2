import StoredMatrix.Matrix.Construction
import StoredMatrix.Storage.Checked

/-!
# Checked work on matrices

The questions, conversions and comparisons that compute positions or allocate buffers, made of checked
steps. A matrix can be held without room for all of its positions; it cannot be spread out then, nor
be compared with another one position by position.
-/

namespace StoredMatrix

namespace Matrix

/-! ## Reading -/

def checkedGet : Matrix → (row col : Nat) → Except Fault (Option Scalar)
  | real s, row, col => (·.map .real) <$> s.checkedGet row col
  | complex s, row, col => (·.map .complex) <$> s.checkedGet row col

def checkedEntries : Matrix → Except Fault (Grid Scalar)
  | real s => (·.map (·.map .real)) <$> s.checkedEntries
  | complex s => (·.map (·.map .complex)) <$> s.checkedEntries

def checkedDisplay (precision : Option Nat) : Matrix → Except Fault String
  | real s => String.ofList <$> s.checkedText precision
  | complex s => String.ofList <$> s.checkedText precision

/-! ## Converting -/

def checkedToDense : Matrix → Except Fault Matrix
  | real s => (fun m => .real (.dense m)) <$> s.checkedToDense
  | complex s => (fun m => .complex (.dense m)) <$> s.checkedToDense

def checkedToComplex : Matrix → Except Fault Matrix
  | real s => .complex <$> s.checkedToComplex
  | complex s => .complex <$> s.checkedToComplex

def checkedToComplexDense : Matrix → Except Fault (Dense Complex)
  | real s => s.checkedToDense >>= Dense.checkedToComplex
  | complex s => s.checkedToDense >>= Dense.checkedToComplex

/-- A complex matrix is refused before anything is allocated. -/
def checkedToRealDense : Matrix → Except Fault (Except Error (Dense Binary64))
  | real s => .ok <$> s.checkedToDense
  | complex _ => .ok (.error (.domainDemotion .complex .real))

def checkedToSparse : Matrix → Except Fault (Except Error Matrix)
  | real s => do
    let m ← s.checkedToDense
    (·.map fun t => .real (.sparse t)) <$> m.checkedToSparse
  | complex s => do
    let m ← s.checkedToDense
    (·.map fun t => .complex (.sparse t)) <$> m.checkedToSparse

/-! ## Comparing -/

/-- Matrices of other dimensions are told apart before either of them is spread out. -/
def checkedMathsEq (t : Tolerance) (a b : Matrix) : Except Fault Bool :=
  if a.dims = b.dims then
    match a.domain.common b.domain with
    | .complex => do
      let m ← a.checkedToComplexDense
      let n ← b.checkedToComplexDense
      return Storage.fuzzyEq t (.dense m) (.dense n)
    | .real => do
      let m ← a.checkedToRealDense
      let n ← b.checkedToRealDense
      match m, n with
      | .ok m, .ok n => return Storage.fuzzyEq t (.dense m) (.dense n)
      | _, _ => return false
  else .ok false

end Matrix

/-- The matrix that a conversion yields, or its refusal, or what goes wrong on the way. -/
def Conversion.checkedApply : Conversion → Matrix → Except Fault (Except Error Matrix)
  | toDense, m => .ok <$> m.checkedToDense
  | toComplex, m => .ok <$> m.checkedToComplex
  | toComplexDense, m => (fun d => .ok (.complex (.dense d))) <$> m.checkedToComplexDense
  | toRealDense, m => (·.map fun d => .real (.dense d)) <$> m.checkedToRealDense
  | toSparse, m => m.checkedToSparse

end StoredMatrix
