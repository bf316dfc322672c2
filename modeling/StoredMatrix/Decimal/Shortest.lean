import StoredMatrix.Binary64.Rounding
import StoredMatrix.Decimal.Basic

/-!
# Decimals of a double

A finite double has two decimals: the shortest one that reads back as the same number, and the
one with a set number of places. The first is found on the coarsest decimal grid that has a point
among the reals which round to the number. If any point of a grid lies there, so does one of the
value's two neighbours on that grid, and no other needs testing.
-/

namespace StoredMatrix

/-! ## Reals that round to one number -/

/-- A stretch of reals around a value, with both ends inside or both outside. -/
structure RoundingInterval where
  low : Nat
  value : Nat
  high : Nat
  closed : Bool

namespace RoundingInterval

/-- Whether a point lies in the stretch. -/
def contains (i : RoundingInterval) (point : Nat) : Bool :=
  if i.closed then decide (i.low ≤ point) && decide (point ≤ i.high)
  else decide (i.low < point) && decide (point < i.high)

/--
The multiple of `step` in the stretch that is nearest to the value, divided by `step`. Of two
equally near ones the larger is taken.
-/
def gridPoint? (i : RoundingInterval) (step : Nat) : Option Nat :=
  let below := i.value / step
  let above := below + 1
  match i.contains (below * step), i.contains (above * step) with
  | true, true => some (if i.value - below * step < above * step - i.value then below else above)
  | true, false => some below
  | false, true => some above
  | false, false => none

/-- The point on the coarsest grid of steps `10 ^ k`, `k ≤ bound`, with one: its index and `k`. -/
def coarsestPoint (i : RoundingInterval) : (bound : Nat) → Nat × Nat
  | 0 => (i.value, 0)
  | k + 1 =>
    match i.gridPoint? (Nat.pow 10 (k + 1)) with
    | some point => (point, k + 1)
    | none => i.coarsestPoint k

/-- A bound on the grids: beyond it a step exceeds the whole stretch. -/
def gridBound (i : RoundingInterval) : Nat := (i.high.log2 + 1) * 302 / 1000 + 1

end RoundingInterval

/-! ## Decimals of a magnitude -/

namespace Binary64

/-- The grid of halves of the smallest positive number is part of the one of `10 ^ (-1075)`. -/
def halfUnitPlaces : Nat := 1075

/--
The reals that round to a positive finite magnitude, in steps of `10 ^ (-halfUnitPlaces)`. They
end midway to the two neighbours, and the ends belong to the even magnitude.
-/
def roundingInterval (magnitude : Nat) : RoundingInterval :=
  let scale := Nat.pow 5 halfUnitPlaces
  { low := (unitsOf (magnitude - 1) + unitsOf magnitude) * scale
    value := 2 * unitsOf magnitude * scale
    high := (unitsOf magnitude + unitsOf (magnitude + 1)) * scale
    closed := decide (magnitude % 2 = 0) }

/-- The shortest decimal that reads back as a finite magnitude, nearest to it among those. -/
def shortestDecimal (magnitude : Nat) : Decimal :=
  if magnitude = 0 then ⟨0, 0⟩
  else
    let i := roundingInterval magnitude
    let (point, k) := i.coarsestPoint i.gridBound
    ⟨point * Nat.pow 10 (k - halfUnitPlaces), halfUnitPlaces - k⟩

/-- The decimal with the given places nearest to a finite magnitude, a tie to the even digit. -/
def fixedDecimal (places magnitude : Nat) : Decimal :=
  ⟨roundDiv (unitsOf magnitude * Nat.pow 10 places) unitsPerOne, places⟩

end Binary64

end StoredMatrix
