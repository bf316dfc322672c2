import StoredMatrix.Decimal.Shortest
import StoredMatrix.Proofs.RoundingOrder

/-!
# Shortest decimals

The shortest decimal of a magnitude lies among the reals that round to it. The stretches of different
magnitudes have at most an end in common, and an end belongs to the even magnitude only, so no decimal
is the shortest one of two magnitudes.
-/

namespace StoredMatrix

/-! ## Points of a stretch -/

namespace RoundingInterval

variable {i : RoundingInterval} {point step : Nat}

theorem contains_iff :
    i.contains point = true ↔
      (i.closed = true ∧ i.low ≤ point ∧ point ≤ i.high) ∨ (i.low < point ∧ point < i.high) := by
  rw [contains]
  cases i.closed with
  | true => simp; omega
  | false => simp

theorem contains_of_gridPoint? (h : i.gridPoint? step = some point) : i.contains (point * step) = true := by
  simp only [gridPoint?] at h
  split at h
  · rename_i hbelow habove
    split at h <;> cases h
    · exact hbelow
    · exact habove
  · cases h
    assumption
  · cases h
    assumption
  · cases h

/-- The point that is found on a grid lies in the stretch, on the finest grid because the value does. -/
theorem contains_coarsestPoint (h : i.contains i.value = true) (bound : Nat) :
    i.contains ((i.coarsestPoint bound).1 * Nat.pow 10 (i.coarsestPoint bound).2) = true := by
  induction bound with
  | zero => simpa [coarsestPoint] using h
  | succ k ih =>
      rw [coarsestPoint]
      split
      · rename_i point hpoint
        exact contains_of_gridPoint? hpoint
      · exact ih

end RoundingInterval

/-! ## Stretches of magnitudes -/

namespace Binary64

variable {magnitude a b point : Nat}

theorem five_pow_pos (k : Nat) : 0 < Nat.pow 5 k := Nat.pow_pos (by decide)

theorem low_pos (h : 0 < magnitude) : 0 < (roundingInterval magnitude).low := by
  have hlt := unitsOf_lt_unitsOf h
  exact Nat.mul_pos (by omega) (five_pow_pos _)

theorem low_lt_value (h : 0 < magnitude) :
    (roundingInterval magnitude).low < (roundingInterval magnitude).value := by
  have hlt := unitsOf_lt_unitsOf (Nat.sub_one_lt_of_lt h)
  exact Nat.mul_lt_mul_of_pos_right (by omega) (five_pow_pos _)

theorem value_lt_high (magnitude : Nat) :
    (roundingInterval magnitude).value < (roundingInterval magnitude).high := by
  have hlt : unitsOf magnitude < unitsOf (magnitude + 1) := unitsOf_lt_unitsOf (Nat.lt_succ_self _)
  exact Nat.mul_lt_mul_of_pos_right (by omega) (five_pow_pos _)

theorem contains_value (h : 0 < magnitude) :
    (roundingInterval magnitude).contains (roundingInterval magnitude).value = true :=
  RoundingInterval.contains_iff.mpr (.inr ⟨low_lt_value h, value_lt_high magnitude⟩)

theorem high_le_low (h : a < b) : (roundingInterval a).high ≤ (roundingInterval b).low := by
  have hle : unitsOf a ≤ unitsOf (b - 1) := unitsOf_mono (Nat.le_sub_one_of_lt h)
  have hle' : unitsOf (a + 1) ≤ unitsOf b := unitsOf_mono h
  exact Nat.mul_le_mul_right _ (by omega)

/-- Of two neighbours one is odd, and leaves the end between them to the other. -/
theorem not_contains_both (h : a < b) (ha : (roundingInterval a).contains point = true)
    (hb : (roundingInterval b).contains point = true) : False := by
  have hends := high_le_low h
  rw [RoundingInterval.contains_iff] at ha hb
  obtain ⟨hclosed, _, hle⟩ | ⟨_, hlt⟩ := ha
  · obtain ⟨hclosed', hle', _⟩ | ⟨hlt', _⟩ := hb
    · have heven : a % 2 = 0 := of_decide_eq_true hclosed
      have heven' : b % 2 = 0 := of_decide_eq_true hclosed'
      -- two even magnitudes are no neighbours, so there is a gap between their stretches
      have hgap : (roundingInterval a).high < (roundingInterval b).low := by
        have hlt : unitsOf a < unitsOf (b - 1) := unitsOf_lt_unitsOf (by omega)
        have hlt' : unitsOf (a + 1) < unitsOf b := unitsOf_lt_unitsOf (by omega)
        exact Nat.mul_lt_mul_of_pos_right (by omega) (five_pow_pos _)
      omega
    · omega
  · obtain ⟨_, hle', _⟩ | ⟨hlt', _⟩ := hb <;> omega

/-! ## The shortest decimal -/

/-- A decimal counted in steps of the grid on which the ends of all stretches lie. -/
def gridSteps (d : Decimal) : Nat := d.digits * Nat.pow 10 (halfUnitPlaces - d.places)

/-- The decimal of a point on the grid of steps `10 ^ k`: what exceeds the finest grid is in the digits. -/
def pointDecimal (point : Nat × Nat) : Decimal :=
  ⟨point.1 * Nat.pow 10 (point.2 - halfUnitPlaces), halfUnitPlaces - point.2⟩

theorem gridSteps_pointDecimal (point : Nat × Nat) :
    gridSteps (pointDecimal point) = point.1 * Nat.pow 10 point.2 := by
  rw [gridSteps, pointDecimal]
  generalize halfUnitPlaces = n
  have hsteps : point.2 - n + (n - (n - point.2)) = point.2 := by omega
  simp only [Nat.pow_eq]
  rw [Nat.mul_assoc, ← Nat.pow_add, hsteps]

theorem shortestDecimal_of_pos (h : 0 < magnitude) :
    shortestDecimal magnitude =
      pointDecimal ((roundingInterval magnitude).coarsestPoint (roundingInterval magnitude).gridBound) := by
  rw [shortestDecimal, if_neg (Nat.ne_of_gt h)]
  dsimp -iota only
  cases (roundingInterval magnitude).coarsestPoint _ with
  | mk point k => rfl

/-- The shortest decimal reads back as the magnitude. -/
theorem contains_shortestDecimal (h : 0 < magnitude) :
    (roundingInterval magnitude).contains (gridSteps (shortestDecimal magnitude)) = true := by
  rw [shortestDecimal_of_pos h, gridSteps_pointDecimal]
  exact RoundingInterval.contains_coarsestPoint (contains_value h) _

theorem gridSteps_shortestDecimal_zero : gridSteps (shortestDecimal 0) = 0 := by
  rw [shortestDecimal, if_pos rfl, gridSteps, Nat.zero_mul]

theorem gridSteps_shortestDecimal_ne (h : a < b) :
    gridSteps (shortestDecimal a) ≠ gridSteps (shortestDecimal b) := by
  intro heq
  have hb := contains_shortestDecimal (Nat.zero_lt_of_lt h)
  rw [← heq] at hb
  rcases Nat.eq_zero_or_pos a with rfl | ha
  · have hlow := low_pos h
    rw [gridSteps_shortestDecimal_zero, RoundingInterval.contains_iff] at hb
    omega
  · exact not_contains_both h (contains_shortestDecimal ha) hb

/-- No decimal is the shortest one of two magnitudes. -/
theorem shortestDecimal_inj : shortestDecimal a = shortestDecimal b ↔ a = b := by
  refine ⟨fun h => ?_, congrArg shortestDecimal⟩
  rcases Nat.lt_trichotomy a b with hlt | heq | hgt
  · exact absurd (congrArg gridSteps h) (gridSteps_shortestDecimal_ne hlt)
  · exact heq
  · exact absurd (congrArg gridSteps h).symm (gridSteps_shortestDecimal_ne hgt)

end Binary64

end StoredMatrix
