import StoredMatrix.Proofs.Conversions
import StoredMatrix.Proofs.GridReading
import StoredMatrix.Proofs.RoundingOrder

/-!
# Logical matrices

A logical matrix keeps of another one which entries are zero, and nothing else: neither their signs nor
the values of the others. So it has the same non-zero pattern, is compressed to the same places, and is
its own logical matrix.
-/

namespace StoredMatrix

/-! ## Truth of an entry -/

/-- The numbers equal to zero are the two zeros; a NaN is equal to nothing. -/
theorem Binary64.numEq_zero (x : Binary64) : x.numEq .zero = x.isZero := by
  rw [Bool.eq_iff_iff, numEq_iff]
  constructor
  · rintro ⟨_, _, hrank⟩
    have hsigned : signed x.isNegative x.magnitude = signed false 0 := hrank
    exact decide_eq_true (signed_eq_signed.mp hsigned).1
  · intro hx
    exact ⟨isNaN_of_isZero hx, rfl, rank_of_isZero hx⟩

theorem Binary64.not_isZero_of_isNaN_or_isInfinite {x : Binary64} (h : x.isNaN = true ∨ x.isInfinite = true) :
    x.isZero = false := by
  refine Bool.eq_false_iff.mpr fun hx => ?_
  rcases h with h | h
  · rw [isNaN_of_isZero hx] at h
    cases h
  · rw [isInfinite_of_isZero hx] at h
    cases h

namespace Dense

theorem truth_eq (x : Binary64) : truth x = if x.numEq .zero then .zero else .one := by
  rw [x.numEq_zero, truth]

theorem isZero_truth (x : Binary64) : (truth x).isZero = x.isZero := by
  rw [truth]
  cases x.isZero <;> rfl

theorem truth_of_not_isZero {x : Binary64} (h : x.isZero = false) : truth x = .one := by
  rw [truth, h]
  rfl

theorem truth_truth (x : Binary64) : truth (truth x) = truth x := by
  rw [truth, isZero_truth, truth]

/-! ## The logical matrix of a matrix -/

variable {m : Dense Binary64}

theorem toLogical_toLogical (m : Dense Binary64) : m.toLogical.toLogical = m.toLogical := by
  rw [toLogical, toLogical, List.map_map]
  exact congrArg (Dense.mk m.dims) (List.map_congr_left fun x _ => truth_truth x)

theorem get?_toLogical (m : Dense Binary64) (row col : Nat) :
    m.toLogical.get? row col = (m.get? row col).map truth := by
  rw [get?, get?, toLogical, List.getElem?_map]
  split <;> rfl

theorem isZero_toLogical (m : Dense Binary64) : m.toLogical.isZero = m.isZero := m.isZero_map isZero_truth

/-- A logical matrix is compressed to the places of the other one, and stores ones there. -/
theorem toSparse_toLogical (m : Dense Binary64) :
    m.toLogical.toSparse = m.toSparse.map (Sparse.mapValues truth) :=
  m.toSparse_map isZero_truth (by decide)

/-- Two sparse matrices store entries at the same places, and the second one nothing but ones. -/
structure MarksPlaces (s t : Sparse Binary64) : Prop where
  dims_eq : t.dims = s.dims
  colPtrs_eq : t.colPtrs = s.colPtrs
  rowIndices_eq : t.rowIndices = s.rowIndices
  maxColEntries_eq : t.maxColEntries = s.maxColEntries
  eq_one : ∀ x ∈ t.values, x = .one

theorem WellFormed.marksPlaces {s : Sparse Binary64} (hm : m.WellFormed) (hs : m.toSparse = .ok s) :
    MarksPlaces s (s.mapValues truth) where
  dims_eq := rfl
  colPtrs_eq := rfl
  rowIndices_eq := rfl
  maxColEntries_eq := rfl
  eq_one := by
    intro x hx
    obtain ⟨y, hy, rfl⟩ := List.mem_map.mp hx
    have hnz : (!y.isZero) = true := (Sparse.Canonical.compress hm.positive hs).nonzero y hy
    exact truth_of_not_isZero (by simpa using hnz)

/-- A matrix and its logical matrix are both blank, or are compressed to the same places. -/
theorem WellFormed.toSparse_toLogical_cases (hm : m.WellFormed) :
    m.toSparse = .error (.allZero "data") ∧ m.toLogical.toSparse = .error (.allZero "data") ∨
      ∃ s t, m.toSparse = .ok s ∧ m.toLogical.toSparse = .ok t ∧ MarksPlaces s t := by
  rw [toSparse_toLogical]
  cases hs : m.toSparse with
  | error e =>
      rw [hm.toSparse_eq] at hs
      split at hs
      · cases hs
        exact .inl ⟨rfl, rfl⟩
      · cases hs
  | ok s => exact .inr ⟨s, _, rfl, rfl, hm.marksPlaces hs⟩

/-! ## Building -/

theorem logicalOfGrid_eq (g : Grid Binary64) : logicalOfGrid g = toLogical <$> ofGrid g := by
  rw [logicalOfGrid]
  cases ofGrid g <;> rfl

theorem logicalOfGrid_eq_error {e : Error} : logicalOfGrid g = .error e ↔ ofGrid g = .error e := by
  simp only [logicalOfGrid, bind_eq_error, pure_ne_error, and_false, exists_false, or_false]

/-- The buffer of a matrix that fits into memory yields its logical matrix. -/
theorem logicalOfColumnMajor_data (hm : m.WellFormed) (hn : m.dims.count < wordLimit) :
    logicalOfColumnMajor m.data m.dims = .ok m.toLogical := by
  rw [logicalOfColumnMajor, ofColumnMajor_eq_ok.mpr ⟨hm.positive, hn, hm.length_data, rfl⟩]
  rfl

/--
A grid has a logical matrix if it has a matrix, and is refused for the same reason otherwise. The logical
matrix has ones where the matrix is not equal to zero, also where it is infinite or not a number, and
positive zeros elsewhere. It is what the buffer of the matrix yields, and its own buffer again, if the
entries fit into memory. Both matrices are blank, or are compressed to the same places.
-/
theorem logical_keeps_pattern (g : Grid Binary64) :
    (∀ e, logicalOfGrid g = .error e ↔ ofGrid g = .error e) ∧
    ∀ m, ofGrid g = .ok m → ∃ l, logicalOfGrid g = .ok l ∧ l.dims = m.dims ∧
      (∀ row col, l.get? row col =
        (m.get? row col).map fun x => if x.numEq .zero then .zero else .one) ∧
      (∀ row col x, m.get? row col = some x → x.isNaN = true ∨ x.isInfinite = true →
        l.get? row col = some .one) ∧
      (g.elementCount < wordLimit →
        logicalOfColumnMajor m.data m.dims = .ok l ∧ logicalOfColumnMajor l.data l.dims = .ok l) ∧
      l.isZero = m.isZero ∧
      (m.toSparse = .error (.allZero "data") ∧ l.toSparse = .error (.allZero "data") ∨
        ∃ s t, m.toSparse = .ok s ∧ l.toSparse = .ok t ∧ MarksPlaces s t) := by
  refine ⟨fun e => logicalOfGrid_eq_error, fun m hm => ?_⟩
  have hwf := WellFormed.ofGrid hm
  refine ⟨m.toLogical, ?_, rfl, fun row col => ?_, fun row col x hx hspecial => ?_, fun hn => ?_,
    m.isZero_toLogical, hwf.toSparse_toLogical_cases⟩
  · rw [logicalOfGrid_eq, hm]
    rfl
  · rw [get?_toLogical]
    exact congrArg (fun f => (m.get? row col).map f) (funext truth_eq)
  · rw [get?_toLogical, hx, Option.map_some,
      truth_of_not_isZero (Binary64.not_isZero_of_isNaN_or_isInfinite hspecial)]
  · rw [← count_ofGrid hm] at hn
    have hagain := logicalOfColumnMajor_data hwf.toLogical hn
    rw [toLogical_toLogical] at hagain
    exact ⟨logicalOfColumnMajor_data hwf hn, hagain⟩

/-- A NaN, an infinity and the smallest number become ones, a negative zero loses its sign. -/
theorem logical_keeps_pattern_samples :
    (∃ m l, ofGrid [[Binary64.nan, ⟨0x8000000000000000⟩], [.infinity true, ⟨1⟩]] = .ok m ∧
      logicalOfGrid [[.nan, ⟨0x8000000000000000⟩], [.infinity true, ⟨1⟩]] = .ok l ∧
      (l.get? 0 0 = some .one ∧ l.get? 1 0 = some .one) ∧
      (l.get? 0 1 = some .zero ∧ l.get? 1 1 = some .one) ∧
      (logicalOfColumnMajor m.data m.dims = .ok l ∧ logicalOfColumnMajor l.data l.dims = .ok l) ∧
      ∃ s t, m.toSparse = .ok s ∧ l.toSparse = .ok t ∧ MarksPlaces s t) ∧
    logicalOfGrid [[.one], []] = .error (.ragged "data" 1 1 0) := by
  have hgrid : ofGrid [[Binary64.nan, ⟨0x8000000000000000⟩], [.infinity true, ⟨1⟩]] =
      .ok ⟨⟨2, 2⟩, [.nan, .infinity true, ⟨0x8000000000000000⟩, ⟨1⟩]⟩ := by decide +kernel
  obtain ⟨_, hbuilt⟩ := logical_keeps_pattern [[.nan, ⟨0x8000000000000000⟩], [.infinity true, ⟨1⟩]]
  obtain ⟨hrefused, _⟩ := logical_keeps_pattern [[.one], []]
  obtain ⟨l, hl, _, hget, hspecial, hagain, _, hsparse⟩ := hbuilt _ hgrid
  refine ⟨⟨_, l, hgrid, hl, ⟨hspecial 0 0 .nan rfl (.inl (by decide)),
    hspecial 1 0 (.infinity true) rfl (.inr (by decide))⟩, ⟨?_, ?_⟩, hagain (by decide), ?_⟩,
    (hrefused _).mpr rfl⟩
  · rw [hget]
    decide +kernel
  · rw [hget]
    decide +kernel
  · refine hsparse.resolve_left ?_
    rintro ⟨hblank, _⟩
    exact absurd hblank (by decide +kernel)

end Dense

end StoredMatrix
