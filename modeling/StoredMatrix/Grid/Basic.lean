import StoredMatrix.Element

/-!
# Grids

A grid is rectangular input as it arrives: a list of rows, whose lengths are still to be checked.
The functions here tell its first defect, or its dimensions if it has none, and count its
entries.
-/

namespace StoredMatrix

/-- A list of rows. -/
abbrev Grid (α : Type) : Type := List (List α)

namespace Grid

variable {α : Type}

/-! ## Dimensions -/

/-- The first row whose length differs from that of row 0, with its length. -/
def firstRaggedRow? : Grid α → Option (Nat × Nat)
  | [] => none
  | first :: rest =>
    ((first :: rest).zipIdx.find? fun (row, _) => decide (row.length ≠ first.length)).map
      fun (row, index) => (index, row.length)

/-- Whether the rows differ in length. -/
def isRagged (g : Grid α) : Bool := g.firstRaggedRow?.isSome

/-- Whether the grid has rows, all of them as long as there are rows. -/
def isSquare (g : Grid α) : Bool :=
  match g.head? with
  | none => false
  | some first => !g.isRagged && decide (first.length = g.length)

/-- The dimensions of a grid with at least one row and one column, in which no row is ragged. -/
def dims (arg : String) (g : Grid α) : Except Error Dims :=
  match g.head? with
  | none => .error (.invalidDimension arg .rows 0)
  | some first =>
    match g.firstRaggedRow? with
    | some (row, got) => .error (.ragged arg row first.length got)
    | none => do
      ensure (first.length ≠ 0) (.invalidDimension arg .columns 0)
      return ⟨g.length, first.length⟩

/-- The dimensions that two grids share. -/
def pairedDims {β : Type} (arg : String) (g : Grid α) (otherArg : String) (other : Grid β) :
    Except Error Dims := do
  let expected ← g.dims arg
  let got ← other.dims otherArg
  ensure (got.rows = expected.rows)
    (.invalidArgument otherArg (.otherRowCount got.rows arg expected.rows))
  ensure (got.cols = expected.cols)
    (.invalidArgument otherArg (.otherColumnCount got.cols arg expected.cols))
  return expected

/-! ## Entries -/

/-- The number of entries of all rows. -/
def elementCount (g : Grid α) : Nat := g.flatten.length

/-- A column of a grid that is long enough in every row. -/
def column [Entry α] (g : Grid α) (col : Nat) : List α := g.map fun row => row.getD col Entry.zero

/-- The entry at a position, zero outside the grid. -/
def entry [Entry α] (g : Grid α) (row col : Nat) : α := (g.getD row []).getD col Entry.zero

end Grid

/-! ## Zeros in a list -/

variable {α : Type} [Entry α]

/-- The number of entries that are not zero. -/
def countNonzero (xs : List α) : Nat := xs.countP Entry.isNonzero

/-- The position of the first entry that is not zero. -/
def firstNonzero? (xs : List α) : Option Nat := xs.findIdx? Entry.isNonzero

/-- The position of the last entry that is not zero. -/
def lastNonzero? (xs : List α) : Option Nat :=
  (firstNonzero? xs.reverse).map fun fromEnd => xs.length - 1 - fromEnd

/-- The entries from one position up to another, both included. -/
def segment (xs : List α) (first last : Nat) : List α := (xs.take (last + 1)).drop first

/-- Whether no zero stands between two entries that are not zero. -/
def hasContiguousEntries (xs : List α) : Bool :=
  match firstNonzero? xs, lastNonzero? xs with
  | some first, some last => (segment xs first last).all Entry.isNonzero
  | _, _ => true

/-- The number of entries of all rows that are not zero. -/
def Grid.countNonzero (g : Grid α) : Nat := StoredMatrix.countNonzero g.flatten

end StoredMatrix
