import StoredMatrix.Binary64.Rounding

/-!
# Correctly rounded arithmetic

Sums, products and lengths are computed exactly in units and rounded once. Every NaN that comes
out is the one without payload.
-/

namespace StoredMatrix.Binary64

/-- The number nearest to a whole count of units; `zeroNegative` is the sign of an exact zero. -/
def ofUnits (zeroNegative : Bool) (count : Int) : Binary64 :=
  ofSignMagnitude (if count = 0 then zeroNegative else decide (count < 0))
    (roundQuotient count.natAbs 1)

/-- The number nearest to an integer. -/
def ofInt (n : Int) : Binary64 := ofUnits false (n * unitsPerOne)

/-- The sum. An exact zero is positive unless both terms are negative. -/
def add (x y : Binary64) : Binary64 :=
  if x.isNaN || y.isNaN then nan
  else if x.isInfinite then
    if y.isInfinite && x.isNegative != y.isNegative then nan else x
  else if y.isInfinite then y
  else ofUnits (x.isNegative && y.isNegative) (x.units + y.units)

/-- The difference. -/
def sub (x y : Binary64) : Binary64 := add x y.neg

/-- The product; zero times infinity is no number. -/
def mul (x y : Binary64) : Binary64 :=
  let negative := x.isNegative != y.isNegative
  if x.isNaN || y.isNaN then nan
  else if x.isInfinite || y.isInfinite then
    if x.isZero || y.isZero then nan else infinity negative
  else
    ofSignMagnitude negative
      (roundQuotient (unitsOf x.magnitude * unitsOf y.magnitude) unitsPerOne)

/-- The larger of two numbers. -/
def larger (x y : Binary64) : Binary64 := if numLe x y then y else x

/-- The length of the hypotenuse over two sides: infinite if a side is, even beside a NaN. -/
def hypotenuse (x y : Binary64) : Binary64 :=
  if x.isInfinite || y.isInfinite then infinity false
  else if x.isNaN || y.isNaN then nan
  else ofSignMagnitude false
    (roundSqrt (unitsOf x.magnitude * unitsOf x.magnitude +
      unitsOf y.magnitude * unitsOf y.magnitude))

end StoredMatrix.Binary64
