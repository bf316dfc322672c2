import StoredMatrix.Binary64.Arithmetic

/-!
# Closeness within a tolerance

Two numbers are close if they are equal, or finite and no further apart than an absolute bound
or than a bound relative to the larger of them. No NaN is close to anything, and an infinity only
to itself. A bound that is NaN or not positive lets nothing pass but equality.
-/

namespace StoredMatrix

/-- The bounds under which two numbers count as close. -/
structure Tolerance where
  /-- The bound on the distance. -/
  absolute : Binary64
  /-- The bound on the distance as a share of the larger number. -/
  relative : Binary64
deriving DecidableEq

namespace Tolerance

/-- The distance from one to the next double, `2 ^ (-52)`. -/
def epsilon : Binary64 := ⟨0x3CB0000000000000⟩

/-- Ten times the distance from one to the next double. -/
def defaultBound : Binary64 := (Binary64.ofInt 10).mul epsilon

/-- The tolerance that is used where none is given. -/
def default : Tolerance := ⟨defaultBound, defaultBound⟩

/-- A bound on the distance only. -/
def absoluteOnly (bound : Binary64) : Tolerance := ⟨bound, .zero⟩

/-- A bound relative to the larger number only. -/
def relativeOnly (bound : Binary64) : Tolerance := ⟨.zero, bound⟩

/-- Whether two numbers are close. -/
def isClose (t : Tolerance) (a b : Binary64) : Bool :=
  if a.isNaN || b.isNaN then false
  else if a.numEq b then true
  else if a.isInfinite || b.isInfinite then false
  else
    let distance := (a.sub b).abs
    distance.numLe t.absolute || distance.numLe (t.relative.mul (a.abs.larger b.abs))

/-- Whether two lists have one length and are close number by number. -/
def allClose (t : Tolerance) (as bs : List Binary64) : Bool :=
  decide (as.length = bs.length) && (as.zip bs).all fun (a, b) => t.isClose a b

end Tolerance

end StoredMatrix
