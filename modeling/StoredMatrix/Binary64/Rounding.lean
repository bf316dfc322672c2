import StoredMatrix.Binary64.Basic

/-!
# Rounding to the nearest double

Every exact result is a quotient of naturals, counted in the smallest positive number, or a
square root of such a count. Both are rounded to the nearest magnitude, a tie to the even one.
Because the exponent field stands directly above the fraction field, a significand that rounds
up to the next power of two carries into the exponent without a case of its own.
-/

namespace StoredMatrix

/-- The quotient rounded to the nearest natural number, a half to the even neighbour. -/
def roundDiv (num den : Nat) : Nat :=
  let quotient := num / den
  let twice := 2 * (num % den)
  if twice < den then quotient
  else if den < twice then quotient + 1
  else quotient + quotient % 2

/-- The largest natural number whose square is at most `n`, for `n` below `4 ^ digits`. -/
def floorSqrt : (digits : Nat) → (n : Nat) → Nat
  | 0, _ => 0
  | digits + 1, n =>
    let root := 2 * floorSqrt digits (n / 4)
    if (root + 1) * (root + 1) ≤ n then root + 1 else root

/-- The square root of `n` over `den`, rounded to nearest, a half to the even neighbour. -/
def roundSqrtDiv (n den : Nat) : Nat :=
  let root := floorSqrt (n.log2 / 2 + 1) n / den
  let middle := (2 * root + 1) * den
  if 4 * n < middle * middle then root
  else if middle * middle < 4 * n then root + 1
  else root + root % 2

namespace Binary64

/-- The bits that a count of units has beyond the 53 of a significand. -/
def excessBits (count : Nat) : Nat := count.log2 - 52

/--
The magnitude with `excess` bits dropped below the given significand. What exceeds the largest
finite number is infinite.
-/
def magnitudeOf (excess significand : Nat) : Nat :=
  min (excess * exponentWeight + significand) infiniteMagnitude

/-- The magnitude nearest to a quotient of units. -/
def roundQuotient (num den : Nat) : Nat :=
  let excess := excessBits (num / den)
  magnitudeOf excess (roundDiv num (den <<< excess))

/-- The magnitude nearest to the square root of a count of squared units. -/
def roundSqrt (squared : Nat) : Nat :=
  let excess := excessBits (floorSqrt (squared.log2 / 2 + 1) squared)
  magnitudeOf excess (roundSqrtDiv squared (1 <<< excess))

end Binary64

end StoredMatrix
