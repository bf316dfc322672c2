import StoredMatrix.Proofs.MathematicalEquality
import StoredMatrix.Proofs.RandomAccess

/-!
# Fuzzy equality

Fuzzy equality lies between the two others. What is stored alike is close unless it holds a NaN,
and stored words that are close stay so among the zeros of the dense shape, whatever the tolerance.
-/

namespace StoredMatrix

variable {t : Tolerance}

/-! ## Words that are close to themselves -/

namespace Binary64

theorem numEq_self {x : Binary64} (h : x.isNaN = false) : x.numEq x = true := by
  simp [numEq, h]

end Binary64

namespace Tolerance

theorem isClose_self (x : Binary64) : t.isClose x x = true ↔ x.isNaN = false := by
  cases h : x.isNaN with
  | true => simp [isClose, h]
  | false => simp [isClose, h, Binary64.numEq_self h]

theorem allClose_self (words : List Binary64) :
    t.allClose words words = true ↔ ∀ x ∈ words, x.isNaN = false := by
  simp only [allClose, decide_true, Bool.true_and]
  induction words with
  | nil => simp
  | cons x words ih =>
      rw [List.zip_cons_cons, List.all_cons, Bool.and_eq_true, ih, List.forall_mem_cons, isClose_self]

end Tolerance

/-! ## Close elements -/

section Elements

variable {α : Type} [Element α]

/-- The words of two elements are close one by one. -/
def Element.Close (t : Tolerance) (x y : α) : Prop :=
  t.allClose (Element.words x) (Element.words y) = true

theorem forall₂_close_iff {xs ys : List α} :
    t.allClose (rawWords xs) (rawWords ys) = true ↔ List.Forall₂ (Element.Close t) xs ys := by
  rw [List.forall₂_iff_zip]
  constructor
  · intro h
    have hwords : (rawWords xs).length = (rawWords ys).length := by
      simp only [Tolerance.allClose, Bool.and_eq_true, decide_eq_true_eq] at h
      exact h.1
    have hl : xs.length = ys.length := by
      rw [length_rawWords, length_rawWords] at hwords
      exact Nat.eq_of_mul_eq_mul_right Element.width_pos hwords
    exact ⟨hl, fun hp => (allClose_rawWords hl).mp h _ hp⟩
  · rintro ⟨hl, hall⟩
    exact (allClose_rawWords hl).mpr fun p hp => hall hp

end Elements

theorem Element.close_zero_real : Element.Close t (Entry.zero : Binary64) Entry.zero :=
  (allClose_words_real _ _).mpr
    ⟨t.isClose_of_isZero Binary64.isZero_zero Binary64.isZero_zero,
      t.isClose_of_isZero Binary64.isZero_zero Binary64.isZero_zero⟩

theorem Element.close_zero_complex : Element.Close t (Entry.zero : Complex) Entry.zero :=
  (allClose_words_complex _ _).mpr
    ⟨t.isClose_of_isZero Binary64.isZero_zero Binary64.isZero_zero,
      t.isClose_of_isZero Binary64.isZero_zero Binary64.isZero_zero⟩

/-! ## Storages -/

namespace Storage

variable {α : Type} [Element α] {a b : Storage α}

theorem fuzzyEq_of_structEq (h : a.structEq b = true) :
    fuzzyEq t a b = true ↔ ∀ x ∈ a.raw, x.isNaN = false := by
  simp only [structEq, Bool.and_eq_true, decide_eq_true_eq] at h
  rw [fuzzyEq, h.1, ← h.2, Bool.true_and, Tolerance.allClose_self]

/-- Close stored words stay close when both matrices are spread out. -/
theorem WellFormed.fuzzyEq_toDense (ha : a.WellFormed) (hb : b.WellFormed)
    (hzero : Element.Close t (Entry.zero : α) Entry.zero) (h : fuzzyEq t a b = true) :
    a.dims = b.dims ∧ fuzzyEq t (.dense a.toDense) (.dense b.toDense) = true := by
  rw [fuzzyEq, Bool.and_eq_true, sameLayout_iff] at h
  obtain ⟨hlayout, hclose⟩ := h
  have hd : a.dims = b.dims := by
    cases hlayout <;> assumption
  refine ⟨hd, (ha.toDense.fuzzyEq_iff hb.toDense ?_).mpr fun row hr col hc => ?_⟩
  · rw [dims_toDense, dims_toDense, hd]
  · rw [dims_toDense] at hr hc
    have hget := related_get? hzero hlayout (forall₂_close_iff.mp hclose) row col
    rwa [ha.get?_eq_some hr hc, hb.get?_eq_some (hd ▸ hr) (hd ▸ hc)] at hget

end Storage

/-! ## The three equalities -/

@[simp] theorem Dense.toComplex_complex (m : Dense Complex) : m.toComplex = m :=
  congrArg (Dense.mk m.dims) (List.map_id m.data)

namespace Matrix

variable {a b : Matrix}

theorem fuzzyEq_of_structEq (h : a.structEq b = true) :
    fuzzyEq t a b = true ↔ ∀ x ∈ a.raw, x.isNaN = false := by
  cases a with
  | real r =>
      cases b with
      | real s => exact Storage.fuzzyEq_of_structEq h
      | complex s => cases h
  | complex r =>
      cases b with
      | complex s => exact Storage.fuzzyEq_of_structEq h
      | real s => cases h

theorem WellFormed.mathsEq_of_fuzzyEq (ha : a.WellFormed) (hb : b.WellFormed)
    (h : fuzzyEq t a b = true) : a.mathsEq t b = true := by
  cases a with
  | real r =>
      cases b with
      | real s =>
          obtain ⟨hd, hdense⟩ := Storage.WellFormed.fuzzyEq_toDense ha hb Element.close_zero_real h
          exact Bool.and_eq_true_iff.mpr ⟨decide_eq_true hd, hdense⟩
      | complex s => cases h
  | complex r =>
      cases b with
      | complex s =>
          obtain ⟨hd, hdense⟩ := Storage.WellFormed.fuzzyEq_toDense ha hb Element.close_zero_complex h
          rw [← r.toDense.toComplex_complex, ← s.toDense.toComplex_complex] at hdense
          exact Bool.and_eq_true_iff.mpr ⟨decide_eq_true hd, hdense⟩
      | real s => cases h

end Matrix

end StoredMatrix
