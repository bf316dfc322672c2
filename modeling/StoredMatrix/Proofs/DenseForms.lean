import StoredMatrix.Proofs.CheckedConversions

/-!
# Dense forms

Dimensions are accepted if their positions can be counted, so a matrix that stores a single entry may
have more positions than any buffer. It can be read, but it has no dense form. Where there is room for
one, it is read as the matrix itself, a sparse matrix is put in order by way of it, and
promoting commutes with it.
-/

namespace StoredMatrix

variable {α : Type} [Element α]

/-- The only entry of a column that is as tall as a word can count. -/
def tallColumnSample : Sparse Binary64 where
  dims := ⟨0xffffffffffffffff, 1⟩
  colPtrs := [0, 1]
  rowIndices := [0]
  values := [.one]
  maxColEntries := 1

theorem reachable_tallColumnSample : (Matrix.real (.sparse tallColumnSample)).ReachableInMemory :=
  .build (.real (.sparseBuffers [0, 1] [0] [.one] ⟨0xffffffffffffffff, 1⟩)) (by decide) (by decide +kernel)

/-! ## Reading the dense form -/

/--
A matrix has a dense form if there is room for all entries. That is read as the matrix itself, inside
the dimensions and outside.
-/
theorem Matrix.dense_form_read_alike {m : Matrix} (h : m.ReachableInMemory) :
    (m.Expandable → ∃ d, m.checkedToDense = .ok d ∧ d.dims = m.dims ∧ d.domain = m.domain ∧
      d.shape = .dense ∧ ∀ row col, d.checkedGet row col = .ok (m.get? row col) ∧
        m.checkedGet row col = .ok (m.get? row col) ∧
        (m.get? row col = none ↔ m.dims.rows ≤ row ∨ m.dims.cols ≤ col)) ∧
    (¬m.Expandable → m.checkedToDense = .error .capacity) := by
  have hwf := h.wellFormed
  have hn := h.count_lt
  have hdense : m.toDense.ReachableInMemory := h.convert .toDense rfl
  rw [hwf.checkedToDense_eq hn]
  refine ⟨fun hroom => ?_, Checked.ifRoom_of_not⟩
  refine ⟨m.toDense, Checked.ifRoom_of hroom, m.dims_toDense, m.domain_toDense, m.shape_toDense,
    fun row col => ⟨?_, hwf.checkedGet_eq hn row col, hwf.get?_eq_none_iff⟩⟩
  rw [hdense.wellFormed.checkedGet_eq hdense.count_lt, hwf.get?_toDense]

/-- The sparse sample stores a negative zero below another entry, the diagonal one a run of one entry. -/
theorem Matrix.dense_form_read_alike_samples :
    (real (.sparse descendingSample)).ReachableInMemory ∧
    (real (.sparse descendingSample)).Expandable ∧
    (∃ d, (real (.sparse descendingSample)).checkedToDense = .ok d ∧
      d.checkedGet 0 0 = .ok (some (.real ⟨0x8000000000000000⟩))) ∧
    (complex (.diagonal shortRunSample)).ReachableInMemory ∧
    (complex (.diagonal shortRunSample)).Expandable ∧
    (∃ d, (complex (.diagonal shortRunSample)).checkedToDense = .ok d ∧
      d.checkedGet 0 0 = .ok (some (.complex ⟨⟨0x8000000000000000⟩, .nan⟩)) ∧
      d.checkedGet 1 1 = .ok (some (.complex .zero)) ∧ d.checkedGet 2 2 = .ok none) ∧
    (real (.sparse tallColumnSample)).ReachableInMemory ∧
    ¬(real (.sparse tallColumnSample)).Expandable ∧
    (real (.sparse tallColumnSample)).checkedToDense = .error .capacity := by
  have hsparse : (real (.sparse descendingSample)).Expandable := by decide
  have hdiagonal : (complex (.diagonal shortRunSample)).Expandable := by decide
  have htall : ¬(real (.sparse tallColumnSample)).Expandable := by decide
  obtain ⟨d, hd, _, _, _, hget⟩ := (dense_form_read_alike reachable_descendingSample).1 hsparse
  obtain ⟨d', hd', _, _, _, hget'⟩ := (dense_form_read_alike reachable_shortRunSample).1 hdiagonal
  obtain ⟨_, hfail⟩ := dense_form_read_alike reachable_tallColumnSample
  refine ⟨reachable_descendingSample, hsparse, ⟨d, hd, ?_⟩, reachable_shortRunSample, hdiagonal,
    ⟨d', hd', ?_, ?_, ?_⟩, reachable_tallColumnSample, htall, hfail htall⟩
  · exact (hget 0 0).1.trans (by decide +kernel)
  · exact (hget' 0 0).1.trans (by decide +kernel)
  · exact (hget' 1 1).1.trans (by decide +kernel)
  · exact (hget' 2 2).1.trans (congrArg Except.ok ((hget' 2 2).2.2.mpr (.inl (by decide))))

/-- A matrix of which every position is read, without a dense form. -/
theorem Matrix.dense_form_missing :
    (real (.sparse tallColumnSample)).ReachableInMemory ∧
    (real (.sparse tallColumnSample)).checkedGet 0 0 = .ok (some (.real .one)) ∧
    ¬∃ d, (real (.sparse tallColumnSample)).checkedToDense = .ok d ∧
      d.checkedGet 0 0 = (real (.sparse tallColumnSample)).checkedGet 0 0 := by
  refine ⟨reachable_tallColumnSample, by decide +kernel, ?_⟩
  rintro ⟨d, hd, _⟩
  have hfail : (real (.sparse tallColumnSample)).checkedToDense = .error .capacity := rfl
  rw [hfail] at hd
  cases hd

/-! ## Putting a sparse matrix in order -/

namespace Sparse

/-- Spreading out is undone, if there is room for all entries and for the pointers. -/
theorem WellFormed.checked_toSparse_toDense {s : Sparse α} (h : s.WellFormed) (hn : s.dims.count < wordLimit)
    (hroom : s.dims.Fits (Element.width α)) (hp : s.dims.PointersFit) :
    s.checkedToDense >>= Dense.checkedToSparse = .ok s.toDense.toSparse := by
  rw [h.checkedToDense_eq hn, Checked.ifRoom_of hroom]
  exact h.toDense.checkedToSparse_eq hroom hp

/--
Where there is room, spreading out and compressing again sorts the rows of each column and drops the
zeros that are stored. It changes nothing if there is nothing of that to do, so not a second time.
-/
theorem dense_form_canonicalises {s : Sparse α} (h : (Storage.sparse s).ReachableInMemory)
    (hp : s.colPtrs.length * Storage.wordBytes < signedLimit) :
    (s.dims.Fits (Element.width α) → ∃ t, s.checkedToDense >>= Dense.checkedToSparse = .ok (.ok t) ∧
      t.dims = s.dims ∧ t.Canonical ∧ t.storedCount = countNonzero s.values ∧
      (∀ row < s.dims.rows, ∀ col < s.dims.cols, ∃ a, s.checkedGet row col = .ok (some a) ∧
        t.checkedGet row col = .ok (some (if Entry.isNonzero a then a else Entry.zero))) ∧
      (Storage.structEq (.sparse t) (.sparse s) = true ↔ s.Canonical) ∧
      t.checkedToDense >>= Dense.checkedToSparse = .ok (.ok t)) ∧
    (¬s.dims.Fits (Element.width α) → s.checkedToDense >>= Dense.checkedToSparse = .error .capacity) := by
  have hwf : s.WellFormed := h.wellFormed
  have hn : s.dims.count < wordLimit := h.count_lt
  refine ⟨fun hroom => ?_, fun hroom => ?_⟩
  · obtain ⟨t, ht, hdims, hcanon, hcount, hget, heq, hagain⟩ := hwf.canonicalises
    have hwf' : t.WellFormed := hwf.toDense.toSparse ht
    have hpointers : s.dims.PointersFit := by
      rwa [hwf.pointers.length_eq] at hp
    refine ⟨t, ?_, hdims, hcanon, hcount, fun row hr col hc => ?_, heq, ?_⟩
    · rw [hwf.checked_toSparse_toDense hn hroom hpointers, ht]
    · obtain ⟨a, ha, hta⟩ := hget row hr col hc
      refine ⟨a, ?_, ?_⟩
      · rw [hwf.checkedGet_eq hn, ha]
      · rw [hwf'.checkedGet_eq (hdims ▸ hn), hta]
    · rw [hwf'.checked_toSparse_toDense (hdims ▸ hn) (hdims ▸ hroom) (hdims ▸ hpointers), hagain]
  · rw [hwf.checkedToDense_eq hn, Checked.ifRoom_of_not hroom]
    rfl

theorem dense_form_canonicalises_samples :
    (Storage.sparse descendingSample).ReachableInMemory ∧
    descendingSample.colPtrs.length * Storage.wordBytes < signedLimit ∧
    descendingSample.dims.Fits (Element.width Binary64) ∧
    (∃ t, descendingSample.checkedToDense >>= Dense.checkedToSparse = .ok (.ok t) ∧ t.Canonical ∧
      t.storedCount = 2 ∧ Storage.structEq (.sparse t) (.sparse descendingSample) = false) ∧
    (Storage.sparse tallColumnSample).ReachableInMemory ∧
    tallColumnSample.colPtrs.length * Storage.wordBytes < signedLimit ∧
    ¬tallColumnSample.dims.Fits (Element.width Binary64) ∧
    tallColumnSample.checkedToDense >>= Dense.checkedToSparse = .error .capacity := by
  have hreach : (Storage.sparse descendingSample).ReachableInMemory := .real reachable_descendingSample
  have htall : (Storage.sparse tallColumnSample).ReachableInMemory := .real reachable_tallColumnSample
  have hroom : descendingSample.dims.Fits (Element.width Binary64) := by decide
  have hnone : ¬tallColumnSample.dims.Fits (Element.width Binary64) := by decide
  obtain ⟨hordered, _⟩ := dense_form_canonicalises hreach (by decide)
  obtain ⟨_, hfail⟩ := dense_form_canonicalises htall (by decide)
  obtain ⟨t, ht, _, hcanon, hcount, _, heq, _⟩ := hordered hroom
  refine ⟨hreach, by decide, hroom, ⟨t, ht, hcanon, hcount, Bool.eq_false_iff.mpr ?_⟩, htall, by decide, hnone,
    hfail hnone⟩
  rw [ne_eq, heq]
  intro hs
  exact absurd (hs.rows_ascend 0 (by decide)) (by decide)

/-- A sparse matrix, in order already, that is not spread out to be put in order. -/
theorem dense_form_canonicalises_fails :
    (Storage.sparse tallColumnSample).ReachableInMemory ∧
    ¬∃ t, tallColumnSample.checkedToDense >>= Dense.checkedToSparse = .ok (.ok t) := by
  refine ⟨.real reachable_tallColumnSample, ?_⟩
  rintro ⟨t, ht⟩
  have hfail : tallColumnSample.checkedToDense >>= Dense.checkedToSparse = .error .capacity := rfl
  rw [hfail] at ht
  cases ht

end Sparse

/-! ## Promoting and spreading out -/

/-- With room for complex entries, a real matrix may be promoted before it is compressed or after. -/
theorem Dense.WellFormed.checked_toSparse_toComplex {d : Dense Binary64} (h : d.WellFormed)
    (hroom : d.dims.Allocatable) : ∃ r, d.checkedToSparse = .ok r ∧
      d.checkedToComplex >>= Dense.checkedToSparse = .ok (r.map Sparse.toComplex) ∧
      (∀ s, r = .ok s → (Storage.sparse s).checkedToComplex = .ok (.sparse s.toComplex)) ∧
      (d.isZero = true → r = .error (.allZero "data")) := by
  have hpointers := hroom.pointersFit h.positive
  refine ⟨d.toSparse, h.checkedToSparse_eq (hroom.fits (by decide)) hpointers, ?_, fun s hs => ?_,
    h.toSparse_eq_error_iff.mpr⟩
  · rw [h.checkedToComplex_eq, Checked.ifRoom_of (Dims.fits_two_iff.mpr hroom), ← d.toSparse_toComplex]
    exact h.toComplex.checkedToSparse_eq (Dims.fits_two_iff.mpr hroom) hpointers
  · have hs' : (Storage.sparse s).WellFormed := h.toSparse hs
    have hd : (Storage.sparse s).dims = d.dims := Sparse.dims_compress hs
    rw [Storage.checkedToComplex_eq, Checked.ifRoom_of (hs'.promotable (hd.symm ▸ hroom))]
    rfl

namespace Matrix

/-- The dense forms of a matrix in the complex domain are one. -/
theorem WellFormed.checked_toComplex_toDense {m : Matrix} (h : m.WellFormed) (hn : m.dims.count < wordLimit) :
    m.checkedToDense >>= checkedToComplex =
      (fun d => complex (.dense d)) <$> m.checkedToComplexDense := by
  have hroom : m.Expandable ∧ m.toDense.Promotable ↔ m.dims.Allocatable := by
    rw [h.promotable_toDense]
    exact and_iff_right_of_imp fun hd => hd.expandable
  rw [h.checkedToDense_eq hn, Checked.ifRoom_bind_ifRoom m.toDense.checkedToComplex_eq,
    h.checkedToComplexDense_eq hn, Checked.map_ifRoom, Checked.ifRoom_congr hroom, m.toComplex_toDense]

theorem WellFormed.checked_toDense_toComplex {m : Matrix} (h : m.WellFormed) (h' : m.toComplex.WellFormed)
    (hn : m.dims.count < wordLimit) :
    m.checkedToComplex >>= checkedToDense =
      (fun d => complex (.dense d)) <$> m.checkedToComplexDense := by
  rw [m.checkedToComplex_eq, Checked.ifRoom_bind_ifRoom (h'.checkedToDense_eq (m.dims_toComplex.symm ▸ hn)),
    h.checkedToComplexDense_eq hn, Checked.map_ifRoom,
    Checked.ifRoom_congr h.promotable_and_expandable_toComplex, h.toDense_toComplex]

theorem exists_toDense_eq_real {m : Matrix} (h : m.domain = .real) : ∃ d, m.toDense = real (.dense d) := by
  cases m with
  | real s => exact ⟨s.toDense, rfl⟩
  | complex s => cases h

theorem WellFormed.checkedToRealDense_eq_ok {m : Matrix} (h : m.WellFormed) (hn : m.dims.count < wordLimit)
    {d : Dense Binary64} : m.checkedToRealDense = .ok (.ok d) ↔
      (m.domain = .real ∧ m.Expandable) ∧ m.toDense = real (.dense d) := by
  rw [h.checkedToRealDense_eq hn, Checked.ifRoom_eq_ok, toRealDense_eq_ok]
  constructor
  · rintro ⟨hroom, hreal, hd⟩
    exact ⟨⟨hreal, hroom hreal⟩, hd⟩
  · rintro ⟨⟨hreal, hroom⟩, hd⟩
    exact ⟨fun _ => hroom, hreal, hd⟩

theorem WellFormed.exists_checkedToRealDense_iff {m : Matrix} (h : m.WellFormed) (hn : m.dims.count < wordLimit) :
    (∃ d, m.checkedToRealDense = .ok (.ok d)) ↔ m.domain = .real ∧ m.Expandable := by
  simp only [h.checkedToRealDense_eq_ok hn]
  constructor
  · rintro ⟨_, hroom, _⟩
    exact hroom
  · rintro ⟨hreal, hroom⟩
    obtain ⟨d, hd⟩ := exists_toDense_eq_real hreal
    exact ⟨d, ⟨hreal, hroom⟩, hd⟩

/-- A dense form is its own dense form. -/
theorem ReachableInMemory.checkedToDense_idem {m d : Matrix} (h : m.ReachableInMemory)
    (hd : m.checkedToDense = .ok d) : d.checkedToDense = .ok d := by
  have hdense : m.toDense.ReachableInMemory := h.convert .toDense rfl
  rw [h.wellFormed.checkedToDense_eq h.count_lt] at hd
  obtain ⟨_, rfl⟩ := Checked.ifRoom_eq_ok.mp hd
  rw [hdense.wellFormed.checkedToDense_eq hdense.count_lt, Checked.ifRoom_of m.expandable_toDense,
    m.toDense_toDense]

theorem checkedToComplex_idem {m z : Matrix} (hz : m.checkedToComplex = .ok z) : z.checkedToComplex = .ok z := by
  rw [m.checkedToComplex_eq] at hz
  obtain ⟨hroom, rfl⟩ := Checked.ifRoom_eq_ok.mp hz
  rw [m.toComplex.checkedToComplex_eq, Checked.ifRoom_of (promotable_toComplex.mpr hroom),
    m.toComplex_toComplex]

/-- Promoting changes no dimensions and no place of a stored element. -/
theorem checkedToComplex_keeps {m z : Matrix} (hz : m.checkedToComplex = .ok z) :
    z.shape = m.shape ∧ z.dims = m.dims ∧ z.details = m.details := by
  rw [m.checkedToComplex_eq] at hz
  obtain ⟨_, rfl⟩ := Checked.ifRoom_eq_ok.mp hz
  exact ⟨m.shape_toComplex, m.dims_toComplex, m.details_toComplex⟩

/--
Spreading out and promoting can be done in either order or at once, and again without effect, and both
ways there is room or both ways there is none. Promoting keeps the layout, only real matrices have a real
dense form, and a real dense matrix may be promoted before it is compressed or after, whether it
can be compressed or not.
-/
theorem dense_forms_commute {m : Matrix} (h : m.ReachableInMemory) :
    (m.checkedToDense >>= checkedToComplex = (fun d => complex (.dense d)) <$> m.checkedToComplexDense ∧
      m.checkedToComplex >>= checkedToDense = (fun d => complex (.dense d)) <$> m.checkedToComplexDense) ∧
    ((m.dims.Allocatable → ∃ d, m.checkedToComplexDense = .ok d) ∧
      (¬m.dims.Allocatable → m.checkedToComplexDense = .error .capacity)) ∧
    ((∀ d, m.checkedToDense = .ok d → d.checkedToDense = .ok d) ∧
      ∀ z, m.checkedToComplex = .ok z → z.checkedToComplex = .ok z) ∧
    ((∀ z, m.checkedToComplex = .ok z → z.shape = m.shape ∧ z.dims = m.dims ∧ z.details = m.details) ∧
      (m.Promotable → ∃ z, m.checkedToComplex = .ok z) ∧
      (¬m.Promotable → m.checkedToComplex = .error .capacity)) ∧
    ((∃ d, m.checkedToRealDense = .ok (.ok d)) ↔ m.domain = .real ∧ m.Expandable) ∧
    (∀ d, m.checkedToRealDense = .ok (.ok d) → m.checkedToDense = .ok (real (.dense d))) ∧
    (m.domain = .complex → m.checkedToRealDense = .ok (.error (.domainDemotion .complex .real))) ∧
    (m.domain = .real → ¬m.Expandable → m.checkedToRealDense = .error .capacity) ∧
    (∀ d : Dense Binary64, m = real (.dense d) → d.dims.Allocatable → ∃ r, d.checkedToSparse = .ok r ∧
      d.checkedToComplex >>= Dense.checkedToSparse = .ok (r.map Sparse.toComplex) ∧
      (∀ s, r = .ok s → (Storage.sparse s).checkedToComplex = .ok (.sparse s.toComplex)) ∧
      (d.isZero = true → r = .error (.allZero "data"))) := by
  have hwf := h.wellFormed
  have hn := h.count_lt
  have hpromoted : m.toComplex.ReachableInMemory := h.convert .toComplex rfl
  refine ⟨⟨hwf.checked_toComplex_toDense hn, hwf.checked_toDense_toComplex hpromoted.wellFormed hn⟩, ?_,
    ⟨fun _ => h.checkedToDense_idem, fun _ => checkedToComplex_idem⟩, ⟨fun _ => checkedToComplex_keeps, ?_⟩,
    hwf.exists_checkedToRealDense_iff hn, fun d hd => ?_, fun hcomplex => ?_, fun hreal hroom => ?_, ?_⟩
  · rw [hwf.checkedToComplexDense_eq hn]
    exact Checked.ifRoom_outcomes _ _
  · rw [m.checkedToComplex_eq]
    exact Checked.ifRoom_outcomes _ _
  · obtain ⟨⟨_, hroom⟩, hdense⟩ := (hwf.checkedToRealDense_eq_ok hn).mp hd
    rw [hwf.checkedToDense_eq hn, Checked.ifRoom_of hroom, hdense]
  · cases m with
    | real s => cases hcomplex
    | complex s => rfl
  · rw [hwf.checkedToRealDense_eq hn, Checked.ifRoom_of_not fun hall => hroom (hall hreal)]
  · rintro d rfl hroom
    exact Dense.WellFormed.checked_toSparse_toComplex hwf hroom

/-- A stored negative zero keeps its sign on both ways, and zeros of either sign are refused on both. -/
theorem dense_forms_commute_samples :
    (real (.sparse descendingSample)).ReachableInMemory ∧
    (real (.sparse descendingSample)).dims.Allocatable ∧
    (∃ d, (real (.sparse descendingSample)).checkedToComplexDense = .ok d) ∧
    (real (.sparse descendingSample)).checkedToComplex >>= checkedToDense =
      .ok (complex (.dense ⟨⟨2, 2⟩, [⟨⟨0x8000000000000000⟩, .zero⟩, .one, .zero, .one]⟩)) ∧
    (∃ d, (real (.sparse descendingSample)).checkedToRealDense = .ok (.ok d) ∧
      (real (.sparse descendingSample)).checkedToDense = .ok (real (.dense d))) ∧
    (real (.dense ⟨⟨1, 2⟩, [⟨0x8000000000000000⟩, .zero]⟩)).ReachableInMemory ∧
    (Dense.checkedToComplex ⟨⟨1, 2⟩, [(⟨0x8000000000000000⟩ : Binary64), .zero]⟩ >>= Dense.checkedToSparse) =
      .ok (.error (.allZero "data")) ∧
    (complex (.diagonal shortRunSample)).checkedToRealDense =
      .ok (.error (.domainDemotion .complex .real)) ∧
    ¬(real (.sparse tallColumnSample)).dims.Allocatable ∧
    (real (.sparse tallColumnSample)).checkedToComplex >>= checkedToDense = .error .capacity ∧
    (real (.sparse tallColumnSample)).checkedToRealDense = .error .capacity := by
  have hroom : (real (.sparse descendingSample)).dims.Allocatable := by decide
  have htall : ¬(real (.sparse tallColumnSample)).dims.Allocatable := by decide
  have hexpand : (real (.sparse descendingSample)).Expandable := by decide
  have hblank : (real (.dense ⟨⟨1, 2⟩, [⟨0x8000000000000000⟩, .zero]⟩)).ReachableInMemory :=
    .build (.real (.denseRow [⟨0x8000000000000000⟩, .zero])) (by decide) (by decide +kernel)
  obtain ⟨⟨_, hroutes⟩, ⟨hdense, _⟩, _, _, hreal, hsame, _⟩ := dense_forms_commute reachable_descendingSample
  obtain ⟨⟨_, htallRoutes⟩, ⟨_, hnone⟩, _, _, _, _, _, hfail, _⟩ := dense_forms_commute reachable_tallColumnSample
  obtain ⟨_, _, _, _, _, _, hrefused, _⟩ := dense_forms_commute reachable_shortRunSample
  obtain ⟨_, _, _, _, _, _, _, _, hcompress⟩ := dense_forms_commute hblank
  obtain ⟨r, _, hr, _, hzero⟩ := hcompress _ rfl (by decide)
  obtain ⟨d, hd⟩ := hreal.mpr ⟨rfl, hexpand⟩
  refine ⟨reachable_descendingSample, hroom, hdense hroom, hroutes.trans (by decide +kernel),
    ⟨d, hd, hsame d hd⟩, hblank, ?_, hrefused rfl, htall, ?_, hfail rfl (by decide)⟩
  · rw [hr, hzero (by decide)]
    rfl
  · rw [htallRoutes, hnone htall]
    rfl

/-- A real matrix without a real dense form. -/
theorem dense_forms_commute_fails :
    (real (.sparse tallColumnSample)).ReachableInMemory ∧
    (real (.sparse tallColumnSample)).domain = .real ∧
    ¬∃ d, (real (.sparse tallColumnSample)).checkedToRealDense = .ok (.ok d) := by
  refine ⟨reachable_tallColumnSample, rfl, ?_⟩
  rintro ⟨d, hd⟩
  have hfail : (real (.sparse tallColumnSample)).checkedToRealDense = .error .capacity := rfl
  rw [hfail] at hd
  cases hd

end Matrix

end StoredMatrix
