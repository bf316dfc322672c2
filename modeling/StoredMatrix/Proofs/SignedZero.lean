import StoredMatrix.Tolerance

/-!
# The sign of a zero

No comparison under a tolerance tells the two zeros apart. They have the same place in the order
and the same units, so a difference changes at most in the sign of an exact zero, which the
distance does not show.
-/

namespace StoredMatrix

namespace Binary64

/-! ## Absolute values -/

section SignMagnitude

variable (negative : Bool) {magnitude : Nat} (h : magnitude < signWeight)

include h

theorem toNat_ofSignMagnitude :
    (ofSignMagnitude negative magnitude).bits.toNat = (if negative then signWeight else 0) + magnitude := by
  have hlt : (if negative then signWeight else 0) + magnitude < 2 ^ 64 := by
    unfold signWeight at h ⊢
    split <;> omega
  exact UInt64.toNat_ofNat_of_lt' hlt

theorem magnitude_ofSignMagnitude : (ofSignMagnitude negative magnitude).magnitude = magnitude := by
  rw [Binary64.magnitude, toNat_ofSignMagnitude negative h]
  cases negative with
  | true => exact (Nat.add_mod_left _ _).trans (Nat.mod_eq_of_lt h)
  | false => exact (congrArg (· % signWeight) (Nat.zero_add _)).trans (Nat.mod_eq_of_lt h)

theorem isNegative_ofSignMagnitude : (ofSignMagnitude negative magnitude).isNegative = negative := by
  rw [isNegative, toNat_ofSignMagnitude negative h]
  cases negative with
  | true => exact decide_eq_true (Nat.le_add_right _ _)
  | false => exact decide_eq_false (Nat.not_le_of_lt ((Nat.zero_add _).symm ▸ h))

end SignMagnitude

theorem roundQuotient_lt (num den : Nat) : roundQuotient num den < signWeight :=
  Nat.lt_of_le_of_lt (Nat.min_le_right _ _) (by decide)

/-- Without its sign, a rounded sum does not show which sign an exact zero would have. -/
theorem abs_ofUnits (zeroNegative : Bool) (count : Int) :
    (ofUnits zeroNegative count).abs = ofSignMagnitude false (roundQuotient count.natAbs 1) := by
  rw [abs, ofUnits, magnitude_ofSignMagnitude _ (roundQuotient_lt _ _)]

/-! ## Zeros -/

section Zero

variable {x : Binary64} (h : x.isZero = true)

include h

theorem magnitude_of_isZero : x.magnitude = 0 := of_decide_eq_true h

theorem isNaN_of_isZero : x.isNaN = false := by
  rw [isNaN, magnitude_of_isZero h]
  rfl

theorem isInfinite_of_isZero : x.isInfinite = false := by
  rw [isInfinite, magnitude_of_isZero h]
  rfl

theorem units_of_isZero : x.units = 0 := by
  rw [units, magnitude_of_isZero h]
  cases x.isNegative <;> rfl

theorem rank_of_isZero : x.rank = 0 := by
  rw [rank, magnitude_of_isZero h]
  cases x.isNegative <;> rfl

theorem abs_of_isZero : x.abs = zero.abs := by
  rw [abs, magnitude_of_isZero h]
  rfl

theorem isZero_neg : x.neg.isZero = true := by
  rw [isZero, neg, magnitude_of_isZero h, magnitude_ofSignMagnitude _ (by decide)]
  rfl

theorem abs_add_of_isZero_left (y : Binary64) : (x.add y).abs =
    if y.isNaN then nan.abs else if y.isInfinite then y.abs
    else ofSignMagnitude false (roundQuotient y.units.natAbs 1) := by
  rw [add, isNaN_of_isZero h, isInfinite_of_isZero h, units_of_isZero h, Int.zero_add, Bool.false_or]
  split
  · rfl
  · simp only [Bool.false_eq_true, if_false]
    split
    · rfl
    · exact abs_ofUnits _ _

theorem abs_add_of_isZero_right (y : Binary64) : (y.add x).abs =
    if y.isNaN then nan.abs else if y.isInfinite then y.abs
    else ofSignMagnitude false (roundQuotient y.units.natAbs 1) := by
  rw [add, isNaN_of_isZero h, isInfinite_of_isZero h, units_of_isZero h, Int.add_zero, Bool.or_false,
    Bool.false_and]
  split
  · rfl
  · simp only [Bool.false_eq_true, if_false]
    split
    · rfl
    · exact abs_ofUnits _ _

end Zero

theorem isZero_zero : zero.isZero = true := by decide

end Binary64

namespace Tolerance

variable (t : Tolerance)

theorem isClose_of_isZero_left {x : Binary64} (h : x.isZero = true) (y : Binary64) :
    t.isClose x y = t.isClose .zero y := by
  have hz := Binary64.isZero_zero
  simp only [isClose, Binary64.numEq, Binary64.sub, Binary64.isNaN_of_isZero h,
    Binary64.isInfinite_of_isZero h, Binary64.rank_of_isZero h, Binary64.abs_of_isZero h,
    Binary64.abs_add_of_isZero_left h, Binary64.isNaN_of_isZero hz, Binary64.isInfinite_of_isZero hz,
    Binary64.rank_of_isZero hz, Binary64.abs_add_of_isZero_left hz]

theorem isClose_of_isZero_right {x : Binary64} (h : x.isZero = true) (y : Binary64) :
    t.isClose y x = t.isClose y .zero := by
  have hz := Binary64.isZero_zero
  simp only [isClose, Binary64.numEq, Binary64.sub, Binary64.isNaN_of_isZero h,
    Binary64.isInfinite_of_isZero h, Binary64.rank_of_isZero h, Binary64.abs_of_isZero h,
    Binary64.abs_add_of_isZero_right (Binary64.isZero_neg h), Binary64.isNaN_of_isZero hz,
    Binary64.isInfinite_of_isZero hz, Binary64.rank_of_isZero hz,
    Binary64.abs_add_of_isZero_right (Binary64.isZero_neg hz)]

theorem isClose_of_isZero {x y : Binary64} (hx : x.isZero = true) (hy : y.isZero = true) :
    t.isClose x y = true := by
  rw [isClose, Binary64.isNaN_of_isZero hx, Binary64.isNaN_of_isZero hy, Binary64.numEq,
    Binary64.isNaN_of_isZero hx, Binary64.isNaN_of_isZero hy, Binary64.rank_of_isZero hx,
    Binary64.rank_of_isZero hy]
  rfl

end Tolerance

end StoredMatrix
