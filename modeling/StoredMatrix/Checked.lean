import StoredMatrix.Dims

/-!
# Checked steps

Positions are computed from words: words are added, multiplied and cast, and buffers are allocated,
read and written at what comes out. Each such step is given here together with the ways in which it
goes wrong. A computation made of checked steps yields a result exactly if none of them goes wrong.
-/

namespace StoredMatrix

/-- What goes wrong when positions are computed and used. -/
inductive Fault
  /-- A sum or a product is beyond the machine word. -/
  | overflow
  /-- A cast changes the number. -/
  | lossyCast
  /-- A position or a range lies outside a buffer. -/
  | outOfBounds
  /-- A buffer is too large for any allocation. -/
  | capacity
deriving DecidableEq

/-- The number of non-negative values of a signed word, `2 ^ 63`. No buffer has as many bytes. -/
def signedLimit : Nat := 0x8000000000000000

namespace Checked

variable {β : Type}

/-- Goes on if the condition holds. -/
def require (condition : Bool) (fault : Fault) : Except Fault Unit :=
  if condition then .ok () else .error fault

/-- A sum of words. -/
def add (a b : Nat) : Except Fault Nat := do
  require (a + b < wordLimit) .overflow
  return a + b

/-- A product of words. -/
def mul (a b : Nat) : Except Fault Nat := do
  require (a * b < wordLimit) .overflow
  return a * b

/-- A pointer or a row index as a word. -/
def toWord (pointer : Int) : Except Fault Nat := do
  require (0 ≤ pointer ∧ pointer < wordLimit) .lossyCast
  return pointer.toNat

/-- A word as a pointer or a row index. -/
def toPointer (n : Nat) : Except Fault Int := do
  require (n < signedLimit) .lossyCast
  return Int.ofNat n

/-- Room for a number of elements, each of so many bytes. -/
def allocate (count bytes : Nat) : Except Fault Unit :=
  require (count * bytes < signedLimit) .capacity

/-- What stands at a position of a buffer. -/
def read (xs : List β) (i : Nat) : Except Fault β :=
  match xs[i]? with
  | some b => .ok b
  | none => .error .outOfBounds

/-- A buffer with another element at a position. -/
def write (xs : List β) (i : Nat) (b : β) : Except Fault (List β) := do
  require (i < xs.length) .outOfBounds
  return xs.set i b

/-- The part of a buffer from one position to before another. -/
def slice (xs : List β) (start stop : Nat) : Except Fault (List β) := do
  require (start ≤ stop ∧ stop ≤ xs.length) .outOfBounds
  return (xs.drop start).take (stop - start)

end Checked

end StoredMatrix
