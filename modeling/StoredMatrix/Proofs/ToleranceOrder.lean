import Mathlib.Data.List.Zip
import StoredMatrix.Proofs.RoundingOrder
import StoredMatrix.Proofs.StructuralEquality

/-!
# Symmetry of closeness, and wider tolerances

Numbers that are compared under the bounds are finite and not both zero, so the larger of them is a
positive finite number. Their distance does not depend on their order, and a relative bound that
grows makes for a product that grows. All else is the same on both sides.
-/

namespace StoredMatrix

/-! ## Distances -/

namespace Binary64

variable {a b : Binary64}

@[simp] theorem magnitude_neg (x : Binary64) : x.neg.magnitude = x.magnitude :=
  magnitude_ofSignMagnitude _ x.magnitude_lt

@[simp] theorem isNegative_neg (x : Binary64) : x.neg.isNegative = !x.isNegative :=
  isNegative_ofSignMagnitude _ x.magnitude_lt

theorem IsFinite.neg (h : a.IsFinite) : a.neg.IsFinite := a.magnitude_neg.trans_lt h

theorem units_neg (x : Binary64) : x.neg.units = -x.units := by
  rw [units, units, magnitude_neg, isNegative_neg]
  cases x.isNegative with
  | false => rfl
  | true => exact (Int.neg_neg _).symm

theorem IsFinite.abs_sub (ha : a.IsFinite) (hb : b.IsFinite) :
    (a.sub b).abs = ofSignMagnitude false (roundQuotient (a.units - b.units).natAbs 1) := by
  rw [sub, add, ha.isNaN, hb.neg.isNaN, ha.isInfinite, hb.neg.isInfinite, units_neg, ← Int.sub_eq_add_neg]
  exact abs_ofUnits _ _

theorem IsFinite.abs_sub_comm (ha : a.IsFinite) (hb : b.IsFinite) : (a.sub b).abs = (b.sub a).abs := by
  rw [ha.abs_sub hb, hb.abs_sub ha, ← Int.natAbs_neg, Int.neg_sub]

@[simp] theorem magnitude_abs (x : Binary64) : x.abs.magnitude = x.magnitude :=
  magnitude_ofSignMagnitude _ x.magnitude_lt

@[simp] theorem rank_abs (x : Binary64) : x.abs.rank = x.magnitude :=
  rank_ofSignMagnitude _ x.magnitude_lt

theorem IsFinite.abs (h : a.IsFinite) : a.abs.IsFinite := a.magnitude_abs.trans_lt h

theorem IsFinite.larger_abs (ha : a.IsFinite) (hb : b.IsFinite) :
    a.abs.larger b.abs = ofSignMagnitude false (max a.magnitude b.magnitude) := by
  have hle : a.abs.numLe b.abs = true ↔ a.magnitude ≤ b.magnitude := by
    rw [numLe_iff, rank_abs, rank_abs, Int.ofNat_le]
    exact ⟨fun h => h.2.2, fun h => ⟨ha.abs.isNaN, hb.abs.isNaN, h⟩⟩
  rw [larger, Nat.max_def]
  simp only [hle]
  split <;> rfl

end Binary64

namespace Tolerance

variable {t : Tolerance} {a b : Binary64}

/-- The two numbers are finite and differ, so that it depends on the bounds whether they are close. -/
structure Separate (a b : Binary64) : Prop where
  left : a.IsFinite
  right : b.IsFinite
  rank_ne : a.rank ≠ b.rank

namespace Separate

theorem symm (h : Separate a b) : Separate b a := ⟨h.right, h.left, h.rank_ne.symm⟩

theorem larger_comm (h : Separate a b) : a.abs.larger b.abs = b.abs.larger a.abs := by
  rw [h.left.larger_abs h.right, h.right.larger_abs h.left, Nat.max_comm]

theorem max_lt (h : Separate a b) : max a.magnitude b.magnitude < Binary64.infiniteMagnitude :=
  Nat.max_lt.mpr ⟨h.left, h.right⟩

theorem isFinite_larger (h : Separate a b) : (a.abs.larger b.abs).IsFinite := by
  rw [h.left.larger_abs h.right, Binary64.IsFinite,
    Binary64.magnitude_ofSignMagnitude _ (Nat.lt_trans h.max_lt (by decide))]
  exact h.max_lt

theorem rank_larger_pos (h : Separate a b) : 0 < (a.abs.larger b.abs).rank := by
  rw [h.left.larger_abs h.right, Binary64.rank_ofSignMagnitude _ (Nat.lt_trans h.max_lt (by decide)),
    Binary64.signed_false]
  refine Int.natCast_pos.mpr (Nat.pos_of_ne_zero fun hzero => h.rank_ne ?_)
  obtain ⟨ha, hb⟩ := Nat.max_eq_zero_iff.mp hzero
  rw [Binary64.rank_of_isZero (decide_eq_true ha), Binary64.rank_of_isZero (decide_eq_true hb)]

end Separate

/-- One of the bounds admits the distance. -/
def Admits (t : Tolerance) (a b : Binary64) : Prop :=
  (a.sub b).abs.numLe t.absolute = true ∨
    (a.sub b).abs.numLe (t.relative.mul (a.abs.larger b.abs)) = true

theorem isClose_iff : t.isClose a b = true ↔ a.numEq b = true ∨ Separate a b ∧ t.Admits a b := by
  cases heq : a.numEq b with
  | true =>
      obtain ⟨ha, hb, _⟩ := Binary64.numEq_iff.mp heq
      simp [isClose, ha, hb, heq]
  | false =>
      have hsep : Separate a b ↔ (a.isNaN || b.isNaN) = false ∧ (a.isInfinite || b.isInfinite) = false := by
        simp only [Bool.or_eq_false_iff]
        constructor
        · intro h
          exact ⟨⟨h.left.isNaN, h.right.isNaN⟩, h.left.isInfinite, h.right.isInfinite⟩
        · rintro ⟨⟨ha, hb⟩, ha', hb'⟩
          refine ⟨Binary64.isFinite_of_classes ha ha', Binary64.isFinite_of_classes hb hb', fun hrank => ?_⟩
          rw [Binary64.numEq_iff.mpr ⟨ha, hb, hrank⟩] at heq
          cases heq
      rw [isClose, heq, hsep]
      cases a.isNaN || b.isNaN with
      | true => simp
      | false => cases a.isInfinite || b.isInfinite <;> simp [Admits]

theorem isClose_symm (h : t.isClose a b = true) : t.isClose b a = true := by
  rcases isClose_iff.mp h with heq | ⟨hsep, hbound⟩
  · exact isClose_iff.mpr (.inl (Binary64.numEq_symm heq))
  · refine isClose_iff.mpr (.inr ⟨hsep.symm, ?_⟩)
    rwa [Admits, hsep.right.abs_sub_comm hsep.left, hsep.symm.larger_comm]

theorem isClose_comm (t : Tolerance) (a b : Binary64) : t.isClose a b = t.isClose b a :=
  Bool.eq_iff_iff.mpr ⟨isClose_symm, isClose_symm⟩

theorem allClose_comm (t : Tolerance) (as bs : List Binary64) : t.allClose as bs = t.allClose bs as := by
  rw [allClose, allClose, ← List.zip_swap bs as, List.all_map]
  refine congrArg₂ and (decide_eq_decide.mpr eq_comm) ?_
  exact congrArg (List.all (bs.zip as)) (funext fun p => isClose_comm t p.2 p.1)

/-- No bound of the first tolerance exceeds that of the second, and none is NaN. -/
structure Le (t t' : Tolerance) : Prop where
  absolute : t.absolute.numLe t'.absolute = true
  relative : t.relative.numLe t'.relative = true

namespace Le

variable {t' : Tolerance} (h : t.Le t')

include h

theorem isClose (hclose : t.isClose a b = true) : t'.isClose a b = true := by
  rcases isClose_iff.mp hclose with heq | ⟨hsep, habsolute | hrelative⟩
  · exact isClose_iff.mpr (.inl heq)
  · exact isClose_iff.mpr (.inr ⟨hsep, .inl (Binary64.numLe_trans habsolute h.absolute)⟩)
  · have hmul := Binary64.mul_numLe_mul h.relative hsep.isFinite_larger hsep.rank_larger_pos
    exact isClose_iff.mpr (.inr ⟨hsep, .inr (Binary64.numLe_trans hrelative hmul)⟩)

theorem allClose {as bs : List Binary64} (hclose : t.allClose as bs = true) : t'.allClose as bs = true := by
  obtain ⟨hlength, hall⟩ := Bool.and_eq_true_iff.mp hclose
  refine Bool.and_eq_true_iff.mpr ⟨hlength, ?_⟩
  exact List.all_eq_true.mpr fun p hp => h.isClose (List.all_eq_true.mp hall p hp)

end Le

end Tolerance

/-! ## Matrices -/

namespace Storage

variable {α : Type} [Element α] {t t' : Tolerance}

theorem fuzzyEq_comm (t : Tolerance) (a b : Storage α) : fuzzyEq t a b = fuzzyEq t b a := by
  have hlayout : sameLayout a b = sameLayout b a := by
    rw [Bool.eq_iff_iff, sameLayout_iff, sameLayout_iff]
    exact ⟨SameLayout.symm, SameLayout.symm⟩
  rw [fuzzyEq, fuzzyEq, hlayout, Tolerance.allClose_comm]

theorem fuzzyEq_mono (h : t.Le t') {a b : Storage α} (hclose : fuzzyEq t a b = true) :
    fuzzyEq t' a b = true := by
  obtain ⟨hlayout, hwords⟩ := Bool.and_eq_true_iff.mp hclose
  exact Bool.and_eq_true_iff.mpr ⟨hlayout, h.allClose hwords⟩

end Storage

theorem Domain.common_comm (a b : Domain) : a.common b = b.common a := by
  cases a <;> cases b <;> rfl

namespace Matrix

variable {t t' : Tolerance}

theorem fuzzyEq_comm (t : Tolerance) (a b : Matrix) : fuzzyEq t a b = fuzzyEq t b a := by
  cases a with
  | real r =>
      cases b with
      | real s => exact Storage.fuzzyEq_comm t r s
      | complex s => rfl
  | complex r =>
      cases b with
      | real s => rfl
      | complex s => exact Storage.fuzzyEq_comm t r s

theorem fuzzyEq_mono (h : t.Le t') {a b : Matrix} (hclose : fuzzyEq t a b = true) :
    fuzzyEq t' a b = true := by
  cases a with
  | real r =>
      cases b with
      | real s => exact Storage.fuzzyEq_mono h hclose
      | complex s => cases hclose
  | complex r =>
      cases b with
      | real s => cases hclose
      | complex s => exact Storage.fuzzyEq_mono h hclose

/-- The dense form in which a matrix is compared in a domain. -/
def denseIn (m : Matrix) : Domain → Matrix
  | .real => m.toDense
  | .complex => .complex (.dense m.toComplexDense)

/-- Mathematical equality is fuzzy equality of the dense forms in the common domain. -/
theorem mathsEq_eq (t : Tolerance) (a b : Matrix) :
    a.mathsEq t b = (decide (a.dims = b.dims) &&
      fuzzyEq t (a.denseIn (a.domain.common b.domain)) (b.denseIn (a.domain.common b.domain))) := by
  cases a with
  | real r => cases b <;> rfl
  | complex r => cases b <;> rfl

theorem mathsEq_comm (t : Tolerance) (a b : Matrix) : a.mathsEq t b = b.mathsEq t a := by
  rw [mathsEq_eq, mathsEq_eq, Domain.common_comm, fuzzyEq_comm, decide_eq_decide.mpr eq_comm]

theorem mathsEq_mono (h : t.Le t') {a b : Matrix} (hclose : a.mathsEq t b = true) :
    a.mathsEq t' b = true := by
  rw [mathsEq_eq, Bool.and_eq_true] at hclose ⊢
  exact ⟨hclose.1, fuzzyEq_mono h hclose.2⟩

/--
Neither of the two equalities under a tolerance depends on the order of the matrices, and neither
fails under a wider tolerance, whichever signs the bounds have and whether they are infinite or not.
-/
theorem tolerant_equalities_comm_mono (a b : Matrix) :
    (∀ t, fuzzyEq t a b = fuzzyEq t b a ∧ a.mathsEq t b = b.mathsEq t a) ∧
      ∀ t t' : Tolerance, t.Le t' → (fuzzyEq t a b = true → fuzzyEq t' a b = true) ∧
        (a.mathsEq t b = true → a.mathsEq t' b = true) :=
  ⟨fun t => ⟨fuzzyEq_comm t a b, mathsEq_comm t a b⟩,
    fun _ _ h => ⟨fuzzyEq_mono h, mathsEq_mono h⟩⟩

/-- One and two are as far apart as half of two; an absolute bound below zero admits no distance. -/
theorem tolerant_equalities_comm_mono_negativeBound :
    (Tolerance.mk (.infinity true) ⟨0x3FE0000000000000⟩).Le ⟨.one, .infinity false⟩ ∧
    (real (.dense ⟨⟨1, 1⟩, [.one]⟩)).mathsEq ⟨.infinity true, ⟨0x3FE0000000000000⟩⟩
      (complex (.diagonal ⟨⟨1, 1⟩, [⟨⟨0x4000000000000000⟩, .zero⟩]⟩)) = true ∧
    (complex (.diagonal ⟨⟨1, 1⟩, [⟨⟨0x4000000000000000⟩, .zero⟩]⟩)).mathsEq ⟨.one, .infinity false⟩
      (real (.dense ⟨⟨1, 1⟩, [.one]⟩)) = true := by
  have hle : (Tolerance.mk (.infinity true) ⟨0x3FE0000000000000⟩).Le ⟨.one, .infinity false⟩ :=
    ⟨by decide, by decide⟩
  have hclose : (real (.dense ⟨⟨1, 1⟩, [.one]⟩)).mathsEq ⟨.infinity true, ⟨0x3FE0000000000000⟩⟩
      (complex (.diagonal ⟨⟨1, 1⟩, [⟨⟨0x4000000000000000⟩, .zero⟩]⟩)) = true := by decide +kernel
  obtain ⟨hcomm, hmono⟩ := tolerant_equalities_comm_mono (real (.dense ⟨⟨1, 1⟩, [.one]⟩))
    (complex (.diagonal ⟨⟨1, 1⟩, [⟨⟨0x4000000000000000⟩, .zero⟩]⟩))
  exact ⟨hle, hclose, (hcomm _).2.symm.trans ((hmono _ _ hle).2 hclose)⟩

end Matrix

end StoredMatrix
