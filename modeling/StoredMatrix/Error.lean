import StoredMatrix.Dims
import StoredMatrix.Domain

/-!
# Errors

A matrix that cannot be built or converted is refused with a cause. Each cause carries what its
message tells: the argument at fault, and where and how it is at fault.
-/

namespace StoredMatrix

/-- What a rejected number counts. -/
inductive Axis
  | rows
  | columns
  | named (label : String)
deriving DecidableEq

/-- The word for what is counted. -/
def Axis.name : Axis → String
  | rows => "rows"
  | columns => "columns"
  | named label => label

/-- Why an argument is refused. -/
inductive Reason
  /-- The number of positions exceeds the machine word. -/
  | tooManyPositions (dims : Dims)
  /-- Interleaved words that do not fill a whole number of elements. -/
  | partialElement (domain : Domain) (width got : Nat)
  /-- The second of two grids has another number of rows than the first. -/
  | otherRowCount (got : Nat) (first : String) (expected : Nat)
  /-- The second of two grids has another number of columns than the first. -/
  | otherColumnCount (got : Nat) (first : String) (expected : Nat)
  /-- The sides of a grid differ where a square one is needed. -/
  | notSquare (dims : Dims)
  /-- A grid lacks the zeros that its structure asks for. -/
  | notOfStructure (structure_ : String)
  /-- The column pointers leave out stored values before the first column. -/
  | firstPointer (got : Int)
  /-- The column pointers do not end with the number of stored values. -/
  | lastPointer (expected : Nat) (got : Int)
  /-- One column stores two values for the same row. -/
  | repeatedRow (row : Int) (column : Nat)
  /-- A reason given in words. -/
  | other (text : String)
deriving DecidableEq

/-- The wording of a reason. -/
def Reason.text : Reason → String
  | tooManyPositions dims => s!"{dims.rows}x{dims.cols} elements overflow usize"
  | partialElement domain width got =>
    s!"interleaved {domain.name} data must have a length divisible by {width}, got {got}"
  | otherRowCount got first expected =>
    s!"number of rows ({got}) does not match number of rows in '{first}' ({expected})"
  | otherColumnCount got first expected =>
    s!"number of columns ({got}) does not match number of columns in '{first}' ({expected})"
  | notSquare dims => s!"must be square, got {dims.rows}x{dims.cols}"
  | notOfStructure name => s!"is not {name}"
  | firstPointer got => s!"first entry must be 0, got {got}"
  | lastPointer expected got =>
    s!"last entry must equal the number of stored values ({expected}), got {got}"
  | repeatedRow row column => s!"row {row} appears more than once in column {column}"
  | other text => text

/-- Why a matrix is refused, or an operation on matrices. -/
inductive Error
  | invalidArgument (arg : String) (reason : Reason)
  | invalidDimension (arg : String) (axis : Axis) (value : Nat)
  /-- A row of a grid whose length differs from that of the first row. -/
  | ragged (arg : String) (row expected got : Nat)
  /-- A buffer whose length does not fit the dimensions, or another buffer. -/
  | lengthMismatch (arg : String) (expected got : Nat)
  | indexOutOfBounds (arg : String) (position : Nat) (value : Int) (bound : Nat)
  | nonAscending (arg : String) (position : Nat) (value : Int)
  /-- A sparse matrix without a non-zero value. -/
  | allZero (arg : String)
  /-- A conversion to a domain that does not hold the entries. -/
  | domainDemotion (source target : Domain)
  | invalidBandwidth (bandwidth : Int) (order largest : Nat)
  /-- Two operands of different dimensions. -/
  | nonConformant (left right : Dims)
deriving DecidableEq

/-- The two classes of errors. -/
inductive ErrorKind
  /-- An input that is impossible or inconsistent. -/
  | illegalArgument
  /-- Operands whose dimensions disagree. -/
  | nonConformance
deriving DecidableEq

namespace Error

/-- The class of an error. -/
def kind : Error → ErrorKind
  | nonConformant .. => .nonConformance
  | _ => .illegalArgument

/-- Whether an error is that of an input, and not of operands that disagree. -/
def isIllegalArgument (e : Error) : Bool := decide (e.kind = .illegalArgument)

/-- The message of an error. -/
def message : Error → String
  | invalidArgument arg reason => s!"Invalid argument '{arg}': {reason.text}"
  | invalidDimension arg axis value =>
    s!"Illegal number of {axis.name} specified for '{arg}'. Value given was {value}"
  | ragged arg row expected got =>
    s!"'{arg}' is ragged: row 0 has {expected} elements, row {row} has {got}"
  | lengthMismatch arg expected got =>
    s!"Length of '{arg}' does not commute with the declared shape: expected {expected}, got {got}"
  | indexOutOfBounds arg position value bound =>
    s!"Illegal value in '{arg}' at position {position}: {value} is outside [0, {bound})"
  | nonAscending arg position value =>
    s!"Illegal value in '{arg}' at position {position}: {value} must be non-negative and ascending"
  | allZero arg =>
    s!"'{arg}' has no non-zero values. Blank sparse matrices are not allowed"
  | domainDemotion source target =>
    s!"Cannot convert {source.name} space type to {target.name} space"
  | invalidBandwidth bandwidth order largest =>
    s!"Invalid bandwidth {bandwidth} for a matrix of order {order}: must be odd, positive and at most {largest}"
  | nonConformant left right =>
    s!"Non-conformant operands: [{left.rows}, {left.cols}] vs [{right.rows}, {right.cols}]"

end Error

/-- Goes on if the condition holds, and is refused otherwise. -/
def ensure (condition : Bool) (error : Error) : Except Error Unit :=
  if condition then .ok () else .error error

/-- The number of positions, if there is one and their number is a machine word. -/
def Dims.checkedCount (arg : String) (d : Dims) : Except Error Nat := do
  ensure (d.rows ≠ 0) (.invalidDimension arg .rows 0)
  ensure (d.cols ≠ 0) (.invalidDimension arg .columns 0)
  ensure (d.count < wordLimit) (.invalidArgument arg (.tooManyPositions d))
  return d.count

end StoredMatrix
