import StoredMatrix.Proofs.Conversions
import StoredMatrix.Proofs.IndexSafety

/-!
# Conversions where there is room

A conversion made of checked steps comes to what the conversion without checks comes to, or there is no
room for a buffer that it allocates. Spreading out and promoting need a buffer each, and need nothing
else to go well. Of compressing it is shown that whatever comes out is right.
-/

namespace StoredMatrix

variable {α : Type} [Element α]

/-! ## Room for the stored elements -/

namespace Storage

theorem WellFormed.length_elements_le {s : Storage α} (h : s.WellFormed) : s.elements.length ≤ s.dims.count := by
  cases s with
  | dense m => exact Nat.le_of_eq (Dense.WellFormed.length_data h)
  | diagonal m =>
      have hlength : m.data.length ≤ m.dims.diagonalLength := Diagonal.WellFormed.data_le h
      have hrows : m.dims.diagonalLength ≤ m.dims.rows := Nat.min_le_left _ _
      exact (hlength.trans hrows).trans (Dims.rows_le_count (Diagonal.WellFormed.positive h))
  | sparse m => exact Sparse.WellFormed.length_values_le h

/-- There is room for the stored elements as complex numbers. -/
def Promotable (s : Storage α) : Prop := s.elements.length * 16 < signedLimit

instance {s : Storage α} : Decidable s.Promotable := Nat.decLt _ _

theorem checkedToComplex_eq (s : Storage α) : s.checkedToComplex = Checked.ifRoom s.Promotable s.toComplex := by
  rw [checkedToComplex, Checked.allocate_eq]
  exact Checked.ifRoom_bind fun _ => rfl

@[simp] theorem promotable_toComplex {s : Storage α} : s.toComplex.Promotable ↔ s.Promotable := by
  have hlength : s.toComplex.elements.length = s.elements.length := by
    cases s with
    | dense m => exact List.length_map _
    | diagonal m => exact List.length_map _
    | sparse m => exact List.length_map _
  rw [Promotable, Promotable, hlength]

namespace WellFormed

variable {s : Storage α} (h : s.WellFormed)

include h

theorem promotable (hd : s.dims.Allocatable) : s.Promotable :=
  Nat.lt_of_le_of_lt (Nat.mul_le_mul_right _ h.length_elements_le) hd

theorem promotable_toDense : (dense s.toDense).Promotable ↔ s.dims.Allocatable := by
  rw [Promotable, Dims.Allocatable, ← s.dims_toDense, ← h.toDense.length_data]
  rfl

/-- Promoting first and spreading out then needs as much room as the other way round. -/
theorem promotable_and_expandable_toComplex :
    s.Promotable ∧ s.toComplex.Expandable ↔ s.dims.Allocatable := by
  cases s with
  | dense m =>
      have hroom : (dense m).Promotable ↔ m.dims.Allocatable := h.promotable_toDense
      exact (and_iff_left trivial).trans hroom
  | diagonal m =>
      have hroom : (diagonal m).toComplex.Expandable ↔ m.dims.Allocatable := Dims.fits_two_iff
      rw [hroom]
      exact and_iff_right_of_imp h.promotable
  | sparse m =>
      have hroom : (sparse m).toComplex.Expandable ↔ m.dims.Allocatable := Dims.fits_two_iff
      rw [hroom]
      exact and_iff_right_of_imp h.promotable

end WellFormed

end Storage

/-! ## Compressing with or without room -/

namespace Sparse

theorem Filling.addEntry_of_checked {f filled : Filling α} {row : Nat} {a : α}
    (h : f.checkedAddEntry row a = .ok filled) : f.addEntry row a = filled := by
  by_cases hz : Entry.isZero a = true
  · rw [checkedAddEntry, if_pos hz] at h
    rw [addEntry, if_pos hz]
    exact Except.ok.inj h
  · rw [checkedAddEntry, if_neg hz] at h
    rw [addEntry, if_neg hz]
    obtain ⟨pointer, hpointer, hfilled⟩ := bind_eq_ok.mp h
    obtain ⟨_, rfl⟩ := Checked.toPointer_eq_ok.mp hpointer
    exact Except.ok.inj hfilled

variable {d : Dims} {entry : Nat → Nat → Except Fault α} {entry' : Nat → Nat → α}
  (hentry : ∀ row < d.rows, ∀ col < d.cols, entry row col = .ok (entry' row col))

include hentry

theorem Filling.addColumn_of_checked {f filled : Filling α} {col : Nat} (hc : col < d.cols)
    (h : f.checkedAddColumn d.rows (entry · col) = .ok filled) :
    f.addColumn d.rows (entry' · col) = filled := by
  obtain ⟨pointer, hpointer, hloop⟩ := bind_eq_ok.mp h
  obtain ⟨_, rfl⟩ := Checked.toPointer_eq_ok.mp hpointer
  refine foldl_eq_of_foldlM (fun row hr u v hturn => ?_) hloop
  obtain ⟨a, ha, hadd⟩ := bind_eq_ok.mp hturn
  obtain rfl := Except.ok.inj ((hentry row (List.mem_range.mp hr) col hc).symm.trans ha)
  exact addEntry_of_checked hadd

/-- Whatever room there was, the buffers that were filled are the right ones. -/
theorem compress_of_checked {arg : String} {r : Except Error (Sparse α)}
    (h : checkedCompress arg d entry = .ok r) : compress arg d entry' = r := by
  obtain ⟨counts, hcounts, h⟩ := bind_eq_ok.mp h
  obtain rfl : countColumns d entry' = counts := by
    refine foldl_eq_of_foldlM (fun col hc u v hturn => ?_) hcounts
    rw [checkedAddCount_eq_bind hentry u (List.mem_range.mp hc)] at hturn
    obtain ⟨_, hadd, rfl⟩ := map_eq_ok.mp hturn
    obtain ⟨_, rfl⟩ := Checked.add_eq_ok.mp hadd
    rfl
  rw [compress]
  generalize countColumns d entry' = counts at h ⊢
  obtain ⟨total, widest⟩ := counts
  dsimp only at h ⊢
  by_cases hzero : total = 0
  · rw [if_pos hzero] at h
    rw [hzero]
    exact Except.ok.inj h
  · rw [if_neg hzero] at h
    obtain ⟨filled, hfilled, h⟩ := bind_eq_ok.mp h
    obtain ⟨last, hlast, h⟩ := bind_eq_ok.mp h
    obtain ⟨_, rfl⟩ := Checked.toPointer_eq_ok.mp hlast
    obtain rfl : fillColumns d entry' = filled := by
      simp only [checkedFillColumns, bind_eq_ok] at hfilled
      obtain ⟨_, _, _, _, _, _, _, _, hloop⟩ := hfilled
      exact foldl_eq_of_foldlM
        (fun col hc _ _ => Filling.addColumn_of_checked hentry (List.mem_range.mp hc)) hloop
    simp only [decide_eq_true hzero]
    exact Except.ok.inj h

end Sparse

theorem Dense.WellFormed.toSparse_of_checked {m : Dense α} (h : m.WellFormed) (hn : m.dims.count < wordLimit)
    {r : Except Error (Sparse α)} (hr : m.checkedToSparse = .ok r) : m.toSparse = r :=
  Sparse.compress_of_checked (fun _ hr _ hc => h.checkedEntry_eq hn hr hc) hr

/-- What is compressed in the end was spread out before. -/
theorem Storage.WellFormed.expandable_of_checked {s : Storage α} (h : s.WellFormed) (hn : s.dims.count < wordLimit)
    {r : Except Error (Sparse α)} (hr : s.checkedToDense >>= Dense.checkedToSparse = .ok r) :
    s.Expandable ∧ s.toDense.toSparse = r := by
  obtain ⟨d, hd, hr⟩ := bind_eq_ok.mp hr
  rw [h.checkedToDense_eq hn] at hd
  obtain ⟨hroom, rfl⟩ := Checked.ifRoom_eq_ok.mp hd
  exact ⟨hroom, h.toDense.toSparse_of_checked (s.dims_toDense.symm ▸ hn) hr⟩

/-! ## Matrices -/

namespace Matrix

/-- There is room for the stored elements as complex numbers. -/
def Promotable : Matrix → Prop
  | real s => s.Promotable
  | complex s => s.Promotable

instance : DecidablePred Promotable
  | .real s => inferInstanceAs (Decidable s.Promotable)
  | .complex s => inferInstanceAs (Decidable s.Promotable)

theorem checkedToComplex_eq (m : Matrix) : m.checkedToComplex = Checked.ifRoom m.Promotable m.toComplex := by
  cases m with
  | real s =>
      rw [checkedToComplex, s.checkedToComplex_eq]
      exact Checked.map_ifRoom _
  | complex s =>
      rw [checkedToComplex, s.checkedToComplex_eq]
      exact Checked.map_ifRoom _

@[simp] theorem promotable_toComplex {m : Matrix} : m.toComplex.Promotable ↔ m.Promotable := by
  cases m with
  | real s => exact s.promotable_toComplex
  | complex s => exact s.promotable_toComplex

@[simp] theorem expandable_toDense (m : Matrix) : m.toDense.Expandable := by
  cases m <;> exact trivial

theorem expandable_of_checkedToSparse {m : Matrix} (h : m.WellFormed) (hn : m.dims.count < wordLimit)
    {r : Except Error Matrix} (hr : m.checkedToSparse = .ok r) : m.Expandable ∧ m.toSparse = r := by
  cases m with
  | real s =>
      rw [checkedToSparse, ← map_bind] at hr
      obtain ⟨t, ht, rfl⟩ := map_eq_ok.mp hr
      obtain ⟨hroom, htotal⟩ := Storage.WellFormed.expandable_of_checked h hn ht
      exact ⟨hroom, congrArg (Except.map _) htotal⟩
  | complex s =>
      rw [checkedToSparse, ← map_bind] at hr
      obtain ⟨t, ht, rfl⟩ := map_eq_ok.mp hr
      obtain ⟨hroom, htotal⟩ := Storage.WellFormed.expandable_of_checked h hn ht
      exact ⟨hroom, congrArg (Except.map _) htotal⟩

theorem checkedToRealDense_real {s : Storage Binary64} (h : s.WellFormed) (hn : s.dims.count < wordLimit) :
    (real s).checkedToRealDense = Checked.ifRoom (real s).Expandable (.ok s.toDense) := by
  rw [checkedToRealDense, h.checkedToDense_eq hn]
  exact Checked.map_ifRoom _

namespace WellFormed

variable {m : Matrix} (h : m.WellFormed)

include h

theorem promotable (hd : m.dims.Allocatable) : m.Promotable := by
  cases m with
  | real s => exact Storage.WellFormed.promotable h hd
  | complex s => exact Storage.WellFormed.promotable h hd

theorem promotable_toDense : m.toDense.Promotable ↔ m.dims.Allocatable := by
  cases m with
  | real s => exact Storage.WellFormed.promotable_toDense h
  | complex s => exact Storage.WellFormed.promotable_toDense h

theorem promotable_and_expandable_toComplex :
    m.Promotable ∧ m.toComplex.Expandable ↔ m.dims.Allocatable := by
  cases m with
  | real s => exact Storage.WellFormed.promotable_and_expandable_toComplex h
  | complex s => exact Storage.WellFormed.promotable_and_expandable_toComplex h

variable (hn : m.dims.count < wordLimit)

include hn

theorem checkedToRealDense_eq :
    m.checkedToRealDense = Checked.ifRoom (m.domain = .real → m.Expandable) m.toRealDense := by
  cases m with
  | real s =>
      rw [checkedToRealDense_real h hn]
      exact Checked.ifRoom_congr ⟨fun hroom _ => hroom, fun hroom => hroom rfl⟩
  | complex s => exact (Checked.ifRoom_of nofun).symm

/-- What a conversion yields is what it yields without checks. -/
theorem apply_of_checked {c : Conversion} {r : Except Error Matrix} (hr : c.checkedApply m = .ok r) :
    c.apply m = r := by
  cases c with
  | toDense =>
      obtain ⟨d, hd, rfl⟩ := map_eq_ok.mp hr
      rw [h.checkedToDense_eq hn] at hd
      exact congrArg Except.ok (Checked.ifRoom_eq_ok.mp hd).2
  | toComplex =>
      obtain ⟨z, hz, rfl⟩ := map_eq_ok.mp hr
      rw [m.checkedToComplex_eq] at hz
      exact congrArg Except.ok (Checked.ifRoom_eq_ok.mp hz).2
  | toComplexDense =>
      obtain ⟨d, hd, rfl⟩ := map_eq_ok.mp hr
      rw [h.checkedToComplexDense_eq hn] at hd
      obtain ⟨_, rfl⟩ := Checked.ifRoom_eq_ok.mp hd
      rfl
  | toRealDense =>
      obtain ⟨d, hd, rfl⟩ := map_eq_ok.mp hr
      rw [h.checkedToRealDense_eq hn] at hd
      obtain ⟨_, rfl⟩ := Checked.ifRoom_eq_ok.mp hd
      rfl
  | toSparse => exact (expandable_of_checkedToSparse h hn hr).2

omit hn in
/-- With room for complex numbers at all positions, every conversion comes to its end. -/
theorem checkedApply_of_allocatable (hd : m.dims.Allocatable) (c : Conversion) :
    c.checkedApply m = .ok (c.apply m) := by
  have hn := (Dims.fits_two_iff.mpr hd).count_lt (by decide)
  cases c with
  | toDense =>
      rw [Conversion.checkedApply, h.checkedToDense_eq hn, Checked.ifRoom_of hd.expandable]
      rfl
  | toComplex =>
      rw [Conversion.checkedApply, m.checkedToComplex_eq, Checked.ifRoom_of (h.promotable hd)]
      rfl
  | toComplexDense =>
      rw [Conversion.checkedApply, h.checkedToComplexDense_eq hn, Checked.ifRoom_of hd]
      rfl
  | toRealDense =>
      rw [Conversion.checkedApply, h.checkedToRealDense_eq hn, Checked.ifRoom_of fun _ => hd.expandable]
      rfl
  | toSparse => exact h.checkedToSparse_eq hd

end WellFormed

end Matrix

end StoredMatrix
