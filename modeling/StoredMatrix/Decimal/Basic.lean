/-!
# Decimals in positional notation

A `Decimal` is a whole number of digits with a point some places from its right end. Its text
never has an exponent, writes a digit before the point, and writes as many after it as the
decimal has places.
-/

namespace StoredMatrix

/-- The number `digits / 10 ^ places`. -/
structure Decimal where
  digits : Nat
  places : Nat
deriving DecidableEq

namespace Decimal

/-- The digits, with zeros in front where the point would otherwise have none to its left. -/
def paddedDigits (d : Decimal) : List Char :=
  (Nat.toDigits 10 d.digits).leftpad (d.places + 1) '0'

/-- The positional text. -/
def text (d : Decimal) : List Char :=
  let whole := d.paddedDigits.length - d.places
  if d.places = 0 then d.paddedDigits
  else d.paddedDigits.take whole ++ '.' :: d.paddedDigits.drop whole

end Decimal

end StoredMatrix
