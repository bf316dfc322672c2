import StoredMatrix.Proofs.Promotion
import StoredMatrix.Proofs.Reimport

/-!
# Values along a diagonal

A diagonal matrix built from values and dimensions keeps as many values as its diagonal is long: what
lies past the end is dropped, and what is missing is zero. The other constructors build the same
matrix from other input; only the one for a single entry stores less, which no reading shows.
-/

namespace StoredMatrix

/-! ## Lists of a given length -/

section FitTo

variable {α : Type} [Element α] {n : Nat} {xs ys : List α}

theorem fitTo_take (n : Nat) (xs : List α) : fitTo n (xs.take n) = fitTo n xs := by
  rw [fitTo, fitTo, List.take_take, Nat.min_self]

theorem getD_fitTo_of_lt {i : Nat} (hi : i < n) :
    (fitTo n xs).getD i Entry.zero = xs.getD i Entry.zero := by
  rw [← fitTo_take, getD_fitTo (List.length_take_le n xs), List.getD_eq_getElem?_getD,
    List.getElem?_take_of_lt hi, ← List.getD_eq_getElem?_getD]

/-- A list of the length is the fitted one if it reads the same, past the end of the given one as zero. -/
theorem eq_fitTo_iff :
    ys = fitTo n xs ↔ ys.length = n ∧ ∀ i < n, ys.getD i Entry.zero = xs.getD i Entry.zero := by
  constructor
  · rintro rfl
    exact ⟨length_fitTo n xs, fun i hi => getD_fitTo_of_lt hi⟩
  · rintro ⟨hl, hread⟩
    refine List.ext_getElem (hl.trans (length_fitTo n xs).symm) fun i hi hi' => ?_
    have hin : i < n := hl ▸ hi
    rw [← List.getD_eq_getElem ys Entry.zero hi, ← List.getD_eq_getElem (fitTo n xs) Entry.zero hi',
      hread i hin, getD_fitTo_of_lt hin]

theorem fitTo_append_zeros (n k : Nat) (xs : List α) :
    fitTo n (xs ++ List.replicate k Entry.zero) = fitTo n xs := by
  refine eq_fitTo_iff.mpr ⟨length_fitTo n _, fun i hi => ?_⟩
  rw [getD_fitTo_of_lt hi, getD_append_zeros]

/-- Zeros are filled in before promoting or after. -/
theorem promoteAll_fitTo (n : Nat) (xs : List α) : promoteAll (fitTo n xs) = fitTo n (promoteAll xs) := by
  refine eq_fitTo_iff.mpr ⟨?_, fun i hi => ?_⟩
  · rw [promoteAll, List.length_map, length_fitTo]
  · rw [getD_promoteAll, getD_promoteAll, getD_fitTo_of_lt hi]

end FitTo

/-! ## Matrices -/

namespace Diagonal

variable {α : Type} [Element α]

/--
The matrix stores as many values as its diagonal is long. On the diagonal stand the given values as far
as they reach, everywhere else zeros.
-/
structure StoresDiagonal (m : Diagonal α) (values : List α) (d : Dims) : Prop where
  dims_eq : m.dims = d
  length_data : m.data.length = min d.rows d.cols
  get?_value : ∀ k < min d.rows d.cols, ∀ v, values[k]? = some v → m.get? k k = some v
  get?_zero : ∀ row < d.rows, ∀ col < d.cols, row ≠ col ∨ values.length ≤ row →
    m.get? row col = some Entry.zero

variable {values : List α} {d : Dims} {m : Diagonal α}

theorem exists_ofValues_eq_ok_iff :
    (∃ m, ofValues values d = .ok m) ↔ 1 ≤ d.rows ∧ 1 ≤ d.cols ∧ d.rows * d.cols < wordLimit := by
  simp only [ofValues_eq_ok]
  constructor
  · rintro ⟨_, hp, hn, rfl⟩
    exact ⟨hp.rows_pos, hp.cols_pos, hn⟩
  · rintro ⟨hr, hc, hn⟩
    exact ⟨_, ⟨hr, hc⟩, hn, rfl⟩

theorem get?_ofValues (h : ofValues values d = .ok m) {row col : Nat} (hr : row < d.rows)
    (hc : col < d.cols) :
    m.get? row col = some (if row = col then values.getD row Entry.zero else Entry.zero) := by
  obtain ⟨_, _, rfl⟩ := ofValues_eq_ok.mp h
  rw [get?, if_pos (Dims.contains_iff.mpr ⟨hr, hc⟩)]
  by_cases hdiagonal : row = col
  · subst col
    have hrun : row < d.diagonalLength := Nat.lt_min.mpr ⟨hr, hc⟩
    rw [if_pos rfl, if_pos rfl, getD_fitTo_of_lt hrun]
  · rw [if_neg hdiagonal, if_neg hdiagonal]

theorem StoresDiagonal.ofValues (h : ofValues values d = .ok m) : m.StoresDiagonal values d := by
  obtain ⟨_, _, hm⟩ := ofValues_eq_ok.mp h
  refine ⟨congrArg dims hm, ?_, fun k hk v hv => ?_, fun row hr col hc hzero => ?_⟩
  · rw [hm, length_fitTo, Dims.diagonalLength]
  · obtain ⟨hr, hc⟩ := Nat.lt_min.mp hk
    rw [get?_ofValues h hr hc, if_pos rfl, List.getD_eq_getElem?_getD, hv, Option.getD_some]
  · rw [get?_ofValues h hr hc]
    by_cases hdiagonal : row = col
    · rw [if_pos hdiagonal, List.getD_eq_default values _ (hzero.resolve_left (· hdiagonal))]
    · rw [if_neg hdiagonal]

theorem ofValues_congr {others : List α}
    (h : fitTo d.diagonalLength others = fitTo d.diagonalLength values) :
    ofValues others d = ofValues values d := by
  rw [Diagonal.ofValues, Diagonal.ofValues, h]

/-- Values past the end of the diagonal make no difference. -/
theorem ofValues_eq_of_take_eq {others : List α}
    (h : others.take d.diagonalLength = values.take d.diagonalLength) :
    ofValues others d = ofValues values d := by
  refine ofValues_congr ?_
  rw [← fitTo_take, h, fitTo_take]

theorem ofValues_append_zeros (k : Nat) :
    ofValues (values ++ List.replicate k Entry.zero) d = ofValues values d :=
  ofValues_congr (fitTo_append_zeros d.diagonalLength k values)

theorem square_eq_ofValues (values : List α) :
    square values = ofValues values ⟨values.length, values.length⟩ := by
  have hfit : fitTo (min values.length values.length) values = values := by
    rw [Nat.min_self, (fitTo_eq_self_iff (Nat.le_refl _)).mpr rfl]
  rw [square, Diagonal.ofValues, Dims.diagonalLength, hfit]

/-! ## One entry -/

section Origin

variable {a : α} {o : Diagonal α}

theorem exists_atOrigin_eq_ok_iff :
    (∃ o, atOrigin a d = .ok o) ↔ ∃ m, ofValues [a] d = .ok m := by
  simp only [atOrigin_eq_ok, ofValues_eq_ok]
  constructor
  · rintro ⟨_, hp, hn, rfl⟩
    exact ⟨_, hp, hn, rfl⟩
  · rintro ⟨_, hp, hn, rfl⟩
    exact ⟨_, hp, hn, rfl⟩

variable (ho : atOrigin a d = .ok o) (hm : ofValues [a] d = .ok m)

include ho hm

theorem ofValues_atOrigin : ofValues o.data o.dims = .ok m := by
  obtain ⟨_, _, rfl⟩ := atOrigin_eq_ok.mp ho
  exact hm

theorem get?_atOrigin (row col : Nat) : o.get? row col = m.get? row col := by
  obtain ⟨hp, _, rfl⟩ := atOrigin_eq_ok.mp ho
  obtain ⟨_, _, rfl⟩ := ofValues_eq_ok.mp hm
  rw [get?, get?, getD_fitTo hp.diagonalLength_pos]

theorem toDense_atOrigin : o.toDense = m.toDense :=
  ((WellFormed.atOrigin ho).toDense_ofValues (ofValues_atOrigin ho hm)).symm

theorem structEq_atOrigin :
    Storage.structEq (.diagonal o) (.diagonal m) = true ↔ min d.rows d.cols = 1 := by
  rw [Storage.structEq_iff (a := .diagonal _) (b := .diagonal _) (WellFormed.atOrigin ho)
    (WellFormed.ofValues hm), Storage.diagonal.injEq]
  obtain ⟨hp, _, rfl⟩ := atOrigin_eq_ok.mp ho
  obtain ⟨_, _, rfl⟩ := ofValues_eq_ok.mp hm
  have hfit : fitTo d.diagonalLength [a] = [a] ↔ 1 = d.diagonalLength :=
    fitTo_eq_self_iff hp.diagonalLength_pos
  rw [Diagonal.mk.injEq, and_iff_right rfl, eq_comm, hfit, eq_comm, Dims.diagonalLength]

end Origin

/-! ## Complex matrices from real input -/

section Parts

variable {re im : List Binary64}

theorem squareOfSplit_eq (h : im.length = re.length) :
    squareOfSplit re im = square (Complex.ofParts re im) := by
  rw [squareOfSplit, decide_eq_true h]
  rfl

theorem ofSplit_eq (h : im.length = re.length) (d : Dims) :
    ofSplit re im d = ofValues (Complex.ofParts re im) d := by
  rw [ofSplit, decide_eq_true h]
  rfl

theorem squareOfSplit_eq_error (h : im.length ≠ re.length) :
    squareOfSplit re im = .error (.lengthMismatch "imag" re.length im.length) := by
  rw [squareOfSplit, decide_eq_false h]
  rfl

theorem ofSplit_eq_error (h : im.length ≠ re.length) (d : Dims) :
    ofSplit re im d = .error (.lengthMismatch "imag" re.length im.length) := by
  rw [ofSplit, decide_eq_false h]
  rfl

theorem ofReal_eq (values : List Binary64) (d : Dims) :
    ofReal values d = ofValues (promoteAll values) d := by
  rw [ofReal, Diagonal.ofValues, Diagonal.ofValues, ← promoteAll_fitTo]
  cases d.checkedCount "diagonal" <;> rfl

theorem squareOfReal_eq (values : List Binary64) : squareOfReal values = square (promoteAll values) := by
  have hlength : (promoteAll values).length = values.length := List.length_map _
  rw [square_eq_ofValues, hlength, ← ofReal_eq, squareOfReal, square_eq_ofValues, ofReal]

end Parts

/--
Values are accepted for all dimensions whose positions can be counted, and stored along the diagonal.
Only the ones before its end count, and zeros after them are as good as none. A square matrix, one
with a single entry, and complex matrices from real values or from parts are built as if their values
had been given so; parts of two lengths are always refused.
-/
theorem leading_diagonal_stored (values : List α) (d : Dims) (a : α) (re im : List Binary64) :
    ((∃ m, ofValues values d = .ok m) ↔ 1 ≤ d.rows ∧ 1 ≤ d.cols ∧ d.rows * d.cols < wordLimit) ∧
    (∀ m, ofValues values d = .ok m → m.StoresDiagonal values d) ∧
    (∀ others : List α,
      others.take (min d.rows d.cols) = values.take (min d.rows d.cols) →
        ofValues others d = ofValues values d) ∧
    (∀ k, ofValues (values ++ List.replicate k Entry.zero) d = ofValues values d) ∧
    square values = ofValues values ⟨values.length, values.length⟩ ∧
    ((∃ o, atOrigin a d = .ok o) ↔ ∃ m, ofValues [a] d = .ok m) ∧
    (∀ o m, atOrigin a d = .ok o → ofValues [a] d = .ok m →
      (∀ row col, o.get? row col = m.get? row col) ∧ o.toDense = m.toDense ∧
      (Storage.structEq (.diagonal o) (.diagonal m) = true ↔ min d.rows d.cols = 1)) ∧
    (im.length = re.length →
      squareOfSplit re im = square (Complex.ofParts re im) ∧
      ofSplit re im d = ofValues (Complex.ofParts re im) d) ∧
    (im.length ≠ re.length →
      squareOfSplit re im = .error (.lengthMismatch "imag" re.length im.length) ∧
      ofSplit re im d = .error (.lengthMismatch "imag" re.length im.length)) ∧
    squareOfReal re = square (promoteAll re) ∧ ofReal re d = ofValues (promoteAll re) d := by
  exact ⟨exists_ofValues_eq_ok_iff, fun _ => StoresDiagonal.ofValues, fun _ => ofValues_eq_of_take_eq,
    fun k => ofValues_append_zeros k, square_eq_ofValues values, exists_atOrigin_eq_ok_iff,
    fun o m ho hm => ⟨get?_atOrigin ho hm, toDense_atOrigin ho hm, structEq_atOrigin ho hm⟩,
    fun h => ⟨squareOfSplit_eq h, ofSplit_eq h d⟩,
    fun h => ⟨squareOfSplit_eq_error h, ofSplit_eq_error h d⟩, squareOfReal_eq re, ofReal_eq re d⟩

/-- A wide matrix drops the value past its two rows, and a filled run of two is no run of one. -/
theorem leading_diagonal_stored_samples :
    (∃ m, ofValues [⟨0x8000000000000000⟩, Binary64.nan, .one] ⟨2, 3⟩ = .ok m ∧
      m.get? 0 0 = some ⟨0x8000000000000000⟩ ∧ m.get? 1 2 = some Entry.zero) ∧
    [⟨0x8000000000000000⟩, Binary64.nan, .zero].take 2 =
      [⟨0x8000000000000000⟩, Binary64.nan, .one].take 2 ∧
    ofValues [⟨0x8000000000000000⟩, Binary64.nan, .zero] ⟨2, 3⟩ =
      ofValues [⟨0x8000000000000000⟩, Binary64.nan, .one] ⟨2, 3⟩ ∧
    (∃ o m, atOrigin Binary64.one ⟨2, 3⟩ = .ok o ∧ ofValues [Binary64.one] ⟨2, 3⟩ = .ok m ∧
      o.toDense = m.toDense ∧ Storage.structEq (.diagonal o) (.diagonal m) = false) ∧
    ([.nan] : List Binary64).length = [Binary64.one].length ∧
    ofSplit [.one] [.nan] ⟨2, 3⟩ = ofValues [⟨.one, .nan⟩] ⟨2, 3⟩ ∧
    ([] : List Binary64).length ≠ [Binary64.one].length ∧
    ofSplit [.one] [] ⟨0, 3⟩ = .error (.lengthMismatch "imag" 1 0) := by
  have hmatrix : ofValues [⟨0x8000000000000000⟩, Binary64.nan, .one] ⟨2, 3⟩ =
      .ok ⟨⟨2, 3⟩, [⟨0x8000000000000000⟩, .nan]⟩ := by decide +kernel
  have horigin : atOrigin Binary64.one ⟨2, 3⟩ = .ok ⟨⟨2, 3⟩, [.one]⟩ := by decide +kernel
  have hfilled : ofValues [Binary64.one] ⟨2, 3⟩ = .ok ⟨⟨2, 3⟩, [.one, .zero]⟩ := by decide +kernel
  obtain ⟨_, hstores, htake, _⟩ := leading_diagonal_stored
    [⟨0x8000000000000000⟩, Binary64.nan, .one] ⟨2, 3⟩ Binary64.zero [] []
  obtain ⟨_, _, _, _, _, _, hsame, hparts, _⟩ :=
    leading_diagonal_stored ([] : List Binary64) ⟨2, 3⟩ .one [.one] [.nan]
  obtain ⟨_, _, _, _, _, _, _, _, hmismatch, _⟩ :=
    leading_diagonal_stored ([] : List Binary64) ⟨0, 3⟩ .one [.one] []
  obtain ⟨_, hdense, hiff⟩ := hsame _ _ horigin hfilled
  have hstored := hstores _ hmatrix
  refine ⟨⟨_, hmatrix, hstored.get?_value 0 (by decide) _ rfl,
    hstored.get?_zero 1 (by decide) 2 (by decide) (.inl (by decide))⟩, rfl, htake _ rfl,
    ⟨_, _, horigin, hfilled, hdense, Bool.eq_false_iff.mpr ?_⟩, rfl, (hparts rfl).2, by decide,
    (hmismatch (by decide)).2⟩
  rw [ne_eq, hiff]
  decide

end Diagonal

end StoredMatrix
