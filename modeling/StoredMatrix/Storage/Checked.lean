import StoredMatrix.Checked
import StoredMatrix.Storage.Basic

/-!
# Checked work on storage

Reading an entry, showing all of them, spreading them out, promoting and compressing them compute
positions in buffers, and allocate the buffers. Here all of that is made of checked steps, in the order
in which the steps are taken. Where none of them goes wrong, the outcome is that of the
function without checks.
-/

namespace StoredMatrix

variable {α : Type} [Element α]

/-! ## Reading -/

/-- The entry at a position within the dimensions. -/
def Dense.checkedEntry (m : Dense α) (row col : Nat) : Except Fault α := do
  let columnOffset ← Checked.mul col m.dims.rows
  let offset ← Checked.add columnOffset row
  Checked.read m.data offset

def Dense.checkedGet (m : Dense α) (row col : Nat) : Except Fault (Option α) :=
  if m.dims.contains row col then some <$> m.checkedEntry row col else .ok none

namespace Sparse

/-- Where a column starts and where it ends. -/
def checkedRange (m : Sparse α) (col : Nat) : Except Fault (Nat × Nat) := do
  let start ← Checked.read m.colPtrs col >>= Checked.toWord
  let next ← Checked.add col 1
  let stop ← Checked.read m.colPtrs next >>= Checked.toWord
  return (start, stop)

/-- The entry that a column stores for a row, zero if there is none. -/
def checkedFind (m : Sparse α) (row start stop : Nat) : Except Fault α := do
  let rowIndices ← Checked.slice m.rowIndices start stop
  let rows ← rowIndices.mapM Checked.toWord
  match rows.idxOf? row with
  | none => return Entry.zero
  | some i =>
    let position ← Checked.add start i
    Checked.read m.values position

def checkedGet (m : Sparse α) (row col : Nat) : Except Fault (Option α) :=
  if m.dims.contains row col then do
    let (start, stop) ← m.checkedRange col
    some <$> m.checkedFind row start stop
  else .ok none

end Sparse

namespace Storage

def checkedGet : Storage α → (row col : Nat) → Except Fault (Option α)
  | dense m => m.checkedGet
  -- the run is read by a lookup that is defined at every position
  | diagonal m => fun row col => .ok (m.get? row col)
  | sparse m => m.checkedGet

/-- The entry that is shown at a position. -/
def checkedEntry : Storage α → (row col : Nat) → Except Fault α
  | dense m => m.checkedEntry
  | s => fun row col => (·.getD Entry.zero) <$> s.checkedGet row col

def checkedEntries (s : Storage α) : Except Fault (Grid α) :=
  (List.range s.dims.rows).mapM fun row => (List.range s.dims.cols).mapM (s.checkedEntry row)

def checkedText (precision : Option Nat) (s : Storage α) : Except Fault (List Char) := do
  let rows ← (List.range s.dims.rows).mapM fun row =>
    rowText precision <$> (List.range s.dims.cols).mapM (s.checkedEntry row)
  return ['\n'].intercalate rows

end Storage

/-! ## Spreading out -/

/-- A buffer of zeros for every position. -/
def Dense.checkedZeroBuffer (d : Dims) : Except Fault (List α) := do
  let count ← Checked.mul d.rows d.cols
  Checked.allocate count (Element.width α * Storage.wordBytes)
  return List.replicate count Entry.zero

namespace Diagonal

def checkedWriteEntry (stride : Nat) (buffer : List α) (entry : α × Nat) : Except Fault (List α) := do
  let offset ← Checked.mul entry.2 stride
  Checked.write buffer offset entry.1

def checkedToDense (m : Diagonal α) : Except Fault (Dense α) := do
  let buffer ← Dense.checkedZeroBuffer m.dims
  let stride ← Checked.add m.dims.rows 1
  let data ← m.data.zipIdx.foldlM (checkedWriteEntry stride) buffer
  return ⟨m.dims, data⟩

end Diagonal

namespace Sparse

def checkedWriteEntry (m : Sparse α) (col : Nat) (buffer : List α) (i : Nat) : Except Fault (List α) := do
  let row ← Checked.read m.rowIndices i >>= Checked.toWord
  let columnOffset ← Checked.mul col m.dims.rows
  let offset ← Checked.add row columnOffset
  let a ← Checked.read m.values i
  Checked.write buffer offset a

def checkedWriteColumn (m : Sparse α) (buffer : List α) (col : Nat) : Except Fault (List α) := do
  let (start, stop) ← m.checkedRange col
  (List.range' start (stop - start)).foldlM (m.checkedWriteEntry col) buffer

def checkedToDense (m : Sparse α) : Except Fault (Dense α) := do
  let buffer ← Dense.checkedZeroBuffer m.dims
  let data ← (List.range m.dims.cols).foldlM m.checkedWriteColumn buffer
  return ⟨m.dims, data⟩

end Sparse

/-- All entries in a buffer of their own; those of a dense matrix stand in one already. -/
def Storage.checkedToDense : Storage α → Except Fault (Dense α)
  | dense m => .ok m
  | diagonal m => m.checkedToDense
  | sparse m => m.checkedToDense

/-! ## Promoting -/

def Dense.checkedToComplex (m : Dense α) : Except Fault (Dense Complex) := do
  Checked.allocate m.data.length (Element.width Complex * Storage.wordBytes)
  return m.toComplex

/-- The stored elements are promoted into a buffer of their own. -/
def Storage.checkedToComplex (s : Storage α) : Except Fault (Storage Complex) := do
  Checked.allocate s.elements.length (Element.width Complex * Storage.wordBytes)
  return s.toComplex

/-! ## Compressing -/

namespace Sparse

def checkedAddCount (rows : Nat) (entry : Nat → Nat → Except Fault α) (counts : Nat × Nat) (col : Nat) :
    Except Fault (Nat × Nat) := do
  let column ← (List.range rows).mapM (entry · col)
  let n := column.countP Entry.isNonzero
  let total ← Checked.add counts.1 n
  return (total, max counts.2 n)

def Filling.checkedAddEntry (f : Filling α) (row : Nat) (a : α) : Except Fault (Filling α) :=
  if Entry.isZero a then .ok f
  else do
    let pointer ← Checked.toPointer row
    return { f with rowIndices := f.rowIndices.push pointer, values := f.values.push a }

def Filling.checkedAddColumn (f : Filling α) (rows : Nat) (entry : Nat → Except Fault α) :
    Except Fault (Filling α) := do
  let start ← Checked.toPointer f.values.size
  (List.range rows).foldlM (fun f row => entry row >>= f.checkedAddEntry row)
    { f with colPtrs := f.colPtrs.push start }

def checkedFillColumns (d : Dims) (entry : Nat → Nat → Except Fault α) (total : Nat) :
    Except Fault (Filling α) := do
  let pointers ← Checked.add d.cols 1
  Checked.allocate pointers Storage.wordBytes
  Checked.allocate total Storage.wordBytes
  Checked.allocate total (Element.width α * Storage.wordBytes)
  (List.range d.cols).foldlM (fun (f : Filling α) col => f.checkedAddColumn d.rows (entry · col))
    ⟨#[], #[], #[]⟩

def checkedCompress (arg : String) (d : Dims) (entry : Nat → Nat → Except Fault α) :
    Except Fault (Except Error (Sparse α)) := do
  let (total, widest) ← (List.range d.cols).foldlM (checkedAddCount d.rows entry) (0, 0)
  if total = 0 then return .error (.allZero arg)
  let filled ← checkedFillColumns d entry total
  let last ← Checked.toPointer total
  return .ok {
    dims := d
    colPtrs := filled.colPtrs.toList ++ [last]
    rowIndices := filled.rowIndices.toList
    values := filled.values.toList
    maxColEntries := widest }

end Sparse

def Dense.checkedToSparse (m : Dense α) : Except Fault (Except Error (Sparse α)) :=
  Sparse.checkedCompress "data" m.dims m.checkedEntry

end StoredMatrix
