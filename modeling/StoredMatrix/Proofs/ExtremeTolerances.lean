import StoredMatrix.Proofs.FuzzyEquality
import StoredMatrix.Proofs.ToleranceOrder

/-!
# Extreme tolerances

A bound that is NaN or not positive admits no distance between numbers that differ, for a
difference that rounds to zero is zero. At the other end, no bound makes a NaN close to anything or
an infinity close to anything but itself, while an infinite bound on the distance admits all finite
numbers.
-/

namespace StoredMatrix

namespace Binary64

variable {a b x m : Binary64}

/-! ## Distances of zero -/

/-- Units are counted down to the smallest number, so no count but zero rounds to zero. -/
theorem roundQuotient_one_eq_zero {count : Nat} : roundQuotient count 1 = 0 ↔ count = 0 := by
  constructor
  · intro h
    have hinf : infiniteMagnitude ≠ 0 := by decide
    simp only [roundQuotient, magnitudeOf, Nat.min_eq_zero_iff, hinf, or_false, Nat.add_eq_zero_iff,
      Nat.mul_eq_zero, Nat.div_one] at h
    obtain ⟨hexcess | hweight, hrounded⟩ := h
    · have hle := div_le_roundDiv count (1 <<< excessBits count)
      rw [hrounded, hexcess, Nat.shiftLeft_zero, Nat.div_one] at hle
      exact Nat.le_zero.mp hle
    · exact absurd hweight (by decide)
  · rintro rfl
    decide +kernel

theorem units_eq_signed (x : Binary64) : x.units = signed x.isNegative (unitsOf x.magnitude) := rfl

theorem units_eq_iff : a.units = b.units ↔ a.rank = b.rank := by
  simp only [units_eq_signed, rank_eq_signed, signed_eq_signed, unitsOf_inj, unitsOf_eq_zero]

theorem IsFinite.rank_eq_of_distance (ha : a.IsFinite) (hb : b.IsFinite)
    (h : (a.sub b).abs.rank ≤ 0) : a.rank = b.rank := by
  rw [ha.abs_sub hb, rank_ofSignMagnitude _ (roundQuotient_lt _ _), signed_false] at h
  have hcount : roundQuotient (a.units - b.units).natAbs 1 = 0 := Int.ofNat_eq_zero.mp (by omega)
  rw [roundQuotient_one_eq_zero, Int.natAbs_eq_zero, Int.sub_eq_zero] at hcount
  exact units_eq_iff.mp hcount

/-! ## Bounds that admit no distance -/

/-- The number is NaN, zero or negative. -/
def NotPositive (x : Binary64) : Prop := x.isNaN = true ∨ x.numLe zero = true

theorem NotPositive.rank_le (h : b.NotPositive) (hle : x.numLe b = true) : x.rank ≤ 0 := by
  obtain ⟨_, hnan, hrank⟩ := numLe_iff.mp hle
  rcases h with h | h
  · rw [h] at hnan
    cases hnan
  · exact Int.le_trans hrank (numLe_iff.mp h).2.2

theorem NotPositive.mul (h : x.NotPositive) (hm : m.IsFinite) (hpos : 0 < m.rank) :
    (x.mul m).NotPositive := by
  rcases h with h | h
  · left
    rw [Binary64.mul, h]
    rfl
  · right
    have hzero : (zero.mul m).numLe zero = true := by
      rw [mul_eq_ofSignMagnitude (by decide) hm hpos, show zero.magnitude = 0 by decide,
        productMagnitude_zero]
      decide
    exact numLe_trans (mul_numLe_mul h hm hpos) hzero

/-! ## Infinities -/

/-- An infinity equals no number but itself. -/
theorem eq_of_rank_eq (ha : a.isInfinite = true) (h : a.rank = b.rank) : a = b := by
  have hinf : a.magnitude = infiniteMagnitude := of_decide_eq_true ha
  have hne : infiniteMagnitude ≠ 0 := by decide
  rw [rank_eq_signed, rank_eq_signed, signed_eq_signed, hinf] at h
  obtain ⟨hmagnitude, hsign | hzero⟩ := h
  · exact eq_iff_sign_magnitude.mpr ⟨hsign, hinf.trans hmagnitude⟩
  · exact absurd hzero hne

theorem isNaN_of_isInfinite (h : a.isInfinite = true) : a.isNaN = false := by
  rw [isNaN_eq_false, of_decide_eq_true h]

end Binary64

/-! ## Closeness -/

namespace Tolerance

variable {t : Tolerance} {a b : Binary64}

/-- Each bound is NaN, zero or negative. -/
structure Degenerate (t : Tolerance) : Prop where
  absolute : t.absolute.NotPositive
  relative : t.relative.NotPositive

theorem Degenerate.not_admits (ht : t.Degenerate) (h : Separate a b) : ¬t.Admits a b := by
  rintro (habsolute | hrelative)
  · exact h.rank_ne (h.left.rank_eq_of_distance h.right (ht.absolute.rank_le habsolute))
  · have hbound := ht.relative.mul h.isFinite_larger h.rank_larger_pos
    exact h.rank_ne (h.left.rank_eq_of_distance h.right (hbound.rank_le hrelative))

theorem Degenerate.isClose_eq (ht : t.Degenerate) (a b : Binary64) : t.isClose a b = a.numEq b := by
  rw [Bool.eq_iff_iff, isClose_iff]
  constructor
  · rintro (heq | ⟨hsep, hadmits⟩)
    · exact heq
    · exact absurd hadmits (ht.not_admits hsep)
  · exact .inl

theorem isClose_of_isNaN (h : a.isNaN = true ∨ b.isNaN = true) : t.isClose a b = false := by
  rcases h with h | h <;> simp [isClose, h]

theorem isClose_iff_eq_of_isInfinite (h : a.isInfinite = true) : t.isClose a b = true ↔ a = b := by
  constructor
  · rw [isClose_iff]
    rintro (heq | ⟨hsep, _⟩)
    · exact Binary64.eq_of_rank_eq h (Binary64.numEq_iff.mp heq).2.2
    · rw [hsep.left.isInfinite] at h
      cases h
  · rintro rfl
    exact (isClose_self a).mpr (Binary64.isNaN_of_isInfinite h)

/-- An infinity is close to itself only. -/
theorem isClose_iff_eq (h : a.isInfinite = true ∨ b.isInfinite = true) :
    t.isClose a b = true ↔ a = b := by
  rcases h with h | h
  · exact isClose_iff_eq_of_isInfinite h
  · rw [isClose_comm, isClose_iff_eq_of_isInfinite h, eq_comm]

/-- No number but itself has a chance to be close to this one: one is NaN, or one is infinite. -/
def Unlike (a b : Binary64) : Prop :=
  a.isNaN = true ∨ b.isNaN = true ∨ (a.isInfinite = true ∨ b.isInfinite = true) ∧ a ≠ b

theorem not_isClose_of_unlike (h : Unlike a b) : ¬t.isClose a b = true := by
  rcases h with hnan | hnan | ⟨hinf, hne⟩
  · simp [isClose_of_isNaN (t := t) (.inl hnan)]
  · simp [isClose_of_isNaN (t := t) (.inr hnan)]
  · exact fun h => hne ((isClose_iff_eq hinf).mp h)

/-- An infinite bound admits every distance, also one that overflows. -/
theorem isClose_of_infinite_absolute (h : t.absolute = .infinity false) (ha : a.IsFinite)
    (hb : b.IsFinite) : t.isClose a b = true := by
  rw [isClose_iff]
  by_cases hrank : a.rank = b.rank
  · exact .inl (Binary64.numEq_iff.mpr ⟨ha.isNaN, hb.isNaN, hrank⟩)
  · refine .inr ⟨⟨ha, hb, hrank⟩, .inl ?_⟩
    have hle : Binary64.roundQuotient (a.units - b.units).natAbs 1 ≤ Binary64.infiniteMagnitude :=
      Nat.min_le_right _ _
    have hlt := Binary64.roundQuotient_lt (a.units - b.units).natAbs 1
    rw [ha.abs_sub hb, h, Binary64.numLe_iff, Binary64.isNaN_eq_false,
      Binary64.magnitude_ofSignMagnitude _ hlt, Binary64.rank_ofSignMagnitude _ hlt]
    exact ⟨hle, by decide, Int.ofNat_le.mpr hle⟩

end Tolerance

/-! ## Matrices -/

namespace Matrix

variable {t : Tolerance} {a b : Matrix} {row col : Nat}

/-- Where one of two equal matrices can be read, so can the other, and the parts are close. -/
theorem WellFormed.isClose_of_mathsEq (ha : a.WellFormed) (hb : b.WellFormed)
    (h : a.mathsEq t b = true) {x : Scalar} (hx : a.get? row col = some x) :
    ∃ y, b.get? row col = some y ∧ x.promote.IsClose t y.promote := by
  have hin : row < a.dims.rows ∧ col < a.dims.cols := by
    have hout := mt ha.get?_eq_none_iff.mpr (by rw [hx]; exact nofun)
    omega
  obtain ⟨hd, hclose⟩ := (ha.mathsEq_iff hb).mp h
  obtain ⟨x', y, hx', hy, hxy⟩ := (ha.forall_entry_iff hb hd).mp hclose row hin.1 col hin.2
  obtain rfl := Option.some.inj (hx.symm.trans hx')
  exact ⟨y, hy, hxy⟩

/-- The parts of two numbers that stand at one position are unlike. -/
def UnlikeAt (a b : Matrix) (row col : Nat) : Prop :=
  ∃ x y, a.get? row col = some x ∧ b.get? row col = some y ∧
    (Tolerance.Unlike x.promote.re y.promote.re ∨ Tolerance.Unlike x.promote.im y.promote.im)

/-- A part of the number at the position is NaN. -/
def NaNAt (a : Matrix) (row col : Nat) : Prop :=
  ∃ x, a.get? row col = some x ∧ (x.promote.re.isNaN = true ∨ x.promote.im.isNaN = true)

theorem WellFormed.mathsEq_of_unlikeAt (ha : a.WellFormed) (hb : b.WellFormed)
    (h : a.UnlikeAt b row col) : a.mathsEq t b = false := by
  obtain ⟨x, y, hx, hy, hunlike⟩ := h
  rw [Bool.eq_false_iff]
  intro heq
  obtain ⟨y', hy', hclose⟩ := ha.isClose_of_mathsEq hb heq hx
  obtain rfl := Option.some.inj (hy.symm.trans hy')
  rcases hunlike with hre | him
  · exact Tolerance.not_isClose_of_unlike hre hclose.re
  · exact Tolerance.not_isClose_of_unlike him hclose.im

theorem WellFormed.mathsEq_of_nanAt (ha : a.WellFormed) (hb : b.WellFormed)
    (h : a.NaNAt row col) : a.mathsEq t b = false := by
  obtain ⟨x, hx, hnan⟩ := h
  rw [Bool.eq_false_iff]
  intro heq
  obtain ⟨y, hy, _⟩ := ha.isClose_of_mathsEq hb heq hx
  have hunlike : a.UnlikeAt b row col := ⟨x, y, hx, hy, hnan.imp .inl .inl⟩
  rw [ha.mathsEq_of_unlikeAt hb hunlike] at heq
  cases heq

theorem WellFormed.mathsEq_iff_numEq (ha : a.WellFormed) (hb : b.WellFormed) (ht : t.Degenerate) :
    a.mathsEq t b = true ↔ a.dims = b.dims ∧ ∀ row < a.dims.rows, ∀ col < a.dims.cols,
      ∃ x y, a.get? row col = some x ∧ b.get? row col = some y ∧ x.promote.numEq y.promote = true := by
  rw [ha.mathsEq_iff hb]
  refine and_congr_right fun hd => ?_
  rw [ha.forall_entry_iff hb hd]
  simp only [Complex.isClose_iff, ht.isClose_eq, Complex.numEq, Bool.and_eq_true]

theorem WellFormed.mathsEq_eq_false (ha : a.WellFormed) (hb : b.WellFormed)
    (h : a.NaNAt row col ∨ b.NaNAt row col ∨ a.UnlikeAt b row col) : a.mathsEq t b = false := by
  rcases h with hnan | hnan | hunlike
  · exact ha.mathsEq_of_nanAt hb hnan
  · rw [mathsEq_comm]
    exact hb.mathsEq_of_nanAt ha hnan
  · exact ha.mathsEq_of_unlikeAt hb hunlike

end Matrix

end StoredMatrix
