/-!
# Double-precision numbers as bit patterns

A `Binary64` is the 64 bits of a double-precision number: a sign bit above a 63-bit magnitude.
Whatever only stores, moves or negates a number works on the bits, so the payload of a NaN and
the sign of a zero survive. Magnitudes grow with the numbers they stand for, so comparing two
numbers is comparing two integers.
-/

namespace StoredMatrix

/-- A double-precision number, held as its bit pattern. -/
structure Binary64 where
  bits : UInt64
deriving DecidableEq, Inhabited

namespace Binary64

/-! ## Sign and magnitude -/

/-- The weight of the sign bit, `2 ^ 63`, which no magnitude reaches. -/
def signWeight : Nat := 0x8000000000000000

/-- The weight of the lowest bit of the exponent, `2 ^ 52`, which no fraction reaches. -/
def exponentWeight : Nat := 0x10000000000000

/-- The magnitude of the infinities; what lies above it is a NaN. -/
def infiniteMagnitude : Nat := 0x7FF0000000000000

/-- Whether the sign bit is set, be it on a zero or on a NaN. -/
def isNegative (x : Binary64) : Bool := decide (signWeight ≤ x.bits.toNat)

/-- The 63 bits below the sign. -/
def magnitude (x : Binary64) : Nat := x.bits.toNat % signWeight

/-- The pattern with a given sign bit above a magnitude. -/
def ofSignMagnitude (negative : Bool) (magnitude : Nat) : Binary64 :=
  ⟨.ofNat ((if negative then signWeight else 0) + magnitude)⟩

/-- The positive zero, which has no bit set. -/
def zero : Binary64 := ⟨0⟩

/-- The number one. -/
def one : Binary64 := ⟨0x3FF0000000000000⟩

/-- The quiet NaN without payload, which stands for every NaN that a computation yields. -/
def nan : Binary64 := ⟨0x7FF8000000000000⟩

/-- The infinity of a given sign. -/
def infinity (negative : Bool) : Binary64 := ofSignMagnitude negative infiniteMagnitude

/-- Flips the sign bit, also of a zero and of a NaN. -/
def neg (x : Binary64) : Binary64 := ofSignMagnitude (!x.isNegative) x.magnitude

/-- Clears the sign bit. -/
def abs (x : Binary64) : Binary64 := ofSignMagnitude false x.magnitude

/-! ## Classes -/

/-- Whether the pattern stands for no number. -/
def isNaN (x : Binary64) : Bool := decide (infiniteMagnitude < x.magnitude)

/-- Whether the pattern is one of the two infinities. -/
def isInfinite (x : Binary64) : Bool := decide (x.magnitude = infiniteMagnitude)

/-- Whether the number is zero, of either sign. -/
def isZero (x : Binary64) : Bool := decide (x.magnitude = 0)

/-! ## Value -/

/--
The absolute value that a finite magnitude stands for, counted in the smallest positive number.
The upper 11 bits are an exponent and the lower 52 a fraction; a zero exponent leaves out the
leading one.
-/
def unitsOf (magnitude : Nat) : Nat :=
  let exponent := magnitude / exponentWeight
  let fraction := magnitude % exponentWeight
  if exponent = 0 then fraction else (exponentWeight + fraction) <<< (exponent - 1)

/-- How many of the smallest positive number make up one. -/
def unitsPerOne : Nat := 1 <<< 1074

/-- The value of a finite number, counted in the smallest positive number. -/
def units (x : Binary64) : Int :=
  if x.isNegative then -(unitsOf x.magnitude : Int) else unitsOf x.magnitude

/-! ## Comparison -/

/-- The place of a number in the order of all numbers; both zeros have place 0. -/
def rank (x : Binary64) : Int :=
  if x.isNegative then -(x.magnitude : Int) else x.magnitude

/-- Equality of numbers: the zeros are equal, a NaN equals nothing. -/
def numEq (x y : Binary64) : Bool :=
  !x.isNaN && !y.isNaN && decide (x.rank = y.rank)

/-- The order of numbers, which holds for no NaN. -/
def numLe (x y : Binary64) : Bool :=
  !x.isNaN && !y.isNaN && decide (x.rank ≤ y.rank)

end Binary64

end StoredMatrix
