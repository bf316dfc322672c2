import StoredMatrix.Proofs.WellFormed

/-!
# Sparse matrices from buffers

The checks on raw buffers accept exactly the buffers of well-formed matrices. Each check is matched
with the part of the invariant that it decides.
-/

namespace StoredMatrix

variable {α : Type}

/-! ## Widths -/

theorem PointersInto.columnWidth_eq {colPtrs : List Int} {cols count : Nat}
    (h : PointersInto colPtrs cols count) {col : Nat} (hc : col < cols) :
    columnWidth colPtrs col =
      ((columnStart colPtrs (col + 1) - columnStart colPtrs col : Nat) : Int) := by
  have hle := h.columnStart_mono (Nat.le_succ col) hc
  rw [columnWidth, List.getD_eq_getElem?_getD, List.getD_eq_getElem?_getD, h.getElem?_eq hc,
    h.getElem?_eq (Nat.le_of_lt hc), Option.getD_some, Option.getD_some, Int.ofNat_sub hle]

theorem PointersInto.isGreatest_largest {colPtrs : List Int} {cols count : Nat} {widths : List Nat}
    (h : PointersInto colPtrs cols count) (hcols : 0 < cols)
    (hw : widths = (List.range cols).map fun col => (columnWidth colPtrs col).toNat) :
    IsGreatest {width | ∃ col < cols, columnWidth colPtrs col = width} (largest widths : Int) := by
  have hne : widths ≠ [] := by
    rw [hw, ne_eq, List.map_eq_nil_iff, List.range_eq_nil]
    omega
  obtain ⟨hmem, hle⟩ := largest_isGreatest hne
  subst hw
  have hnn : ∀ col < cols, ((columnWidth colPtrs col).toNat : Int) = columnWidth colPtrs col := by
    intro col hc
    rw [h.columnWidth_eq hc, Int.toNat_natCast]
  constructor
  · obtain ⟨col, hc, hcol⟩ := List.mem_map.mp hmem
    exact ⟨col, List.mem_range.mp hc, hcol ▸ (hnn col (List.mem_range.mp hc)).symm⟩
  · rintro _ ⟨col, hc, rfl⟩
    rw [← hnn col hc]
    exact Int.ofNat_le.mpr (hle (List.mem_map.mpr ⟨col, List.mem_range.mpr hc, rfl⟩))

theorem columnWidths_eq {colPtrs : List Int} {cols : Nat} (hl : colPtrs.length = cols + 1) :
    columnWidths colPtrs = (List.range cols).map fun col => (columnWidth colPtrs col).toNat := by
  apply List.ext_getElem
  · rw [columnWidths, List.length_zipWith, List.length_tail, List.length_map, List.length_range]
    omega
  · intro col hc hc'
    rw [List.length_map, List.length_range] at hc'
    simp only [columnWidths, List.getElem_zipWith, List.getElem_tail, List.getElem_map,
      List.getElem_range, columnWidth, List.getD_eq_getElem?_getD]
    rw [List.getElem?_eq_getElem (by omega), List.getElem?_eq_getElem (by omega)]
    rfl

namespace Sparse

/-! ## What each check decides -/

@[simp] theorem refuse_eq_ok {β : Type} {witness : Option β} {error : β → Error} {u : Unit} :
    refuse witness error = .ok u ↔ witness = none := by
  cases witness with
  | none => exact ⟨fun _ => rfl, fun _ => rfl⟩
  | some w => exact ⟨nofun, nofun⟩

theorem forall_zip_iff_isChain (first : Int) (colPtrs : List Int) :
    (∀ pair ∈ (first :: colPtrs).zip colPtrs, pair.1 ≤ pair.2) ↔
      (first :: colPtrs).IsChain (· ≤ ·) := by
  induction colPtrs generalizing first with
  | nil => simp
  | cons pointer colPtrs ih => simp [List.isChain_cons_cons, ← ih pointer]

theorem firstDescent?_eq_none {colPtrs : List Int} :
    firstDescent? colPtrs = none ↔ (0 :: colPtrs).Pairwise (· ≤ ·) := by
  rw [← List.isChain_iff_pairwise, ← forall_zip_iff_isChain]
  simp only [firstDescent?, Option.map_eq_none_iff, List.find?_eq_none, decide_eq_true_eq, Int.not_lt]
  conv => rhs; rw [← List.zipIdx_map_fst 0 (List.zip (0 :: colPtrs) colPtrs), List.forall_mem_map]

/-- The checks on pointers accept those that cut a buffer into columns. -/
theorem pointersInto_iff {colPtrs : List Int} {cols count : Nat} :
    PointersInto colPtrs cols count ↔
      colPtrs.length = cols + 1 ∧ colPtrs.headD 0 ≤ 0 ∧ (0 :: colPtrs).Pairwise (· ≤ ·) ∧
        colPtrs.getLastD 0 = count := by
  constructor
  · rintro ⟨hl, hfirst, hasc, hlast⟩
    cases colPtrs with
    | nil => cases hfirst
    | cons pointer rest =>
        obtain rfl : pointer = 0 := by simpa using hfirst
        refine ⟨hl, Int.le_refl 0, ?_, ?_⟩
        · exact List.pairwise_cons.mpr ⟨fun p hp => by
            rcases List.mem_cons.mp hp with rfl | hp
            · exact Int.le_refl 0
            · exact (List.pairwise_cons.mp hasc).1 p hp, hasc⟩
        · rw [List.getLastD_eq_getLast?, List.getLast?_eq_getElem?, hl, Nat.add_sub_cancel, hlast]
          rfl
  · rintro ⟨hl, hfirst, hasc, hlast⟩
    obtain ⟨hnn, hasc⟩ := List.pairwise_cons.mp hasc
    cases colPtrs with
    | nil => cases hl
    | cons pointer rest =>
        -- the two checks on the first pointer together leave no choice
        have hzero : pointer = 0 := Int.le_antisymm hfirst (hnn pointer List.mem_cons_self)
        refine ⟨hl, by rw [hzero]; rfl, hasc, ?_⟩
        rw [List.getLastD_eq_getLast?, List.getLast?_eq_getElem?, hl, Nat.add_sub_cancel] at hlast
        rw [List.getElem?_eq_getElem (by omega), ← hlast, List.getElem?_eq_getElem (by omega)]
        rfl

theorem firstStrayRow?_eq_none {rows : Nat} {rowIndices : List Int} :
    firstStrayRow? rows rowIndices = none ↔ ∀ row ∈ rowIndices, 0 ≤ row ∧ row < rows := by
  simp only [firstStrayRow?, Option.map_eq_none_iff, List.find?_eq_none, Bool.or_eq_true,
    decide_eq_true_eq, not_or, Int.not_lt, Int.not_le]
  conv => rhs; rw [← List.zipIdx_map_fst 0 rowIndices, List.forall_mem_map]

theorem leastRepeated?_eq_none {ns : List Int} : leastRepeated? ns = none ↔ ns.Nodup := by
  simp only [leastRepeated?, List.min?_eq_none_iff, List.filter_eq_nil_iff, decide_eq_true_eq,
    Nat.not_lt]
  rw [List.nodup_iff_count]
  refine ⟨fun h n => ?_, fun h n _ => h n⟩
  by_cases hn : n ∈ ns
  · exact h n hn
  · exact (List.count_eq_zero.mpr hn).symm ▸ Nat.zero_le 1

theorem firstRepeatedRow?_eq_none {cols : Nat} {colPtrs rowIndices : List Int} :
    firstRepeatedRow? cols colPtrs rowIndices = none ↔
      ∀ col < cols, (columnSlice colPtrs rowIndices col).Nodup := by
  simp only [firstRepeatedRow?, List.findSome?_eq_none_iff, List.mem_range, Option.map_eq_none_iff,
    leastRepeated?_eq_none]

/-! ## Acceptance -/

variable [Element α]

theorem countNonzero_ne_zero {xs : List α} :
    countNonzero xs ≠ 0 ↔ ∃ a ∈ xs, Entry.isNonzero a = true := by
  rw [countNonzero, ← Nat.pos_iff_ne_zero, List.countP_pos_iff]

/-- Buffers are accepted if they make up a well-formed matrix whose positions can be counted. -/
theorem ofBuffers_eq_ok {colPtrs rowIndices : List Int} {values : List α} {d : Dims} {m : Sparse α} :
    ofBuffers colPtrs rowIndices values d = .ok m ↔
      m.WellFormed ∧ d.count < wordLimit ∧ m.dims = d ∧ m.colPtrs = colPtrs ∧
        m.rowIndices = rowIndices ∧ m.values = values := by
  rw [ofBuffers, Dims.checkedCount_bind_eq_ok]
  simp only [bind_eq_ok, ensure_eq_ok, refuse_eq_ok, pure_eq_ok, decide_eq_true_eq, exists_const,
    firstDescent?_eq_none, firstStrayRow?_eq_none, firstRepeatedRow?_eq_none, countNonzero_ne_zero]
  constructor
  · rintro ⟨hp, hn, hl, hrl, hfirst, hasc, hlast, hrow, hdup, hnz, rfl⟩
    have hptr := pointersInto_iff.mpr ⟨hl, hfirst, hasc, hlast⟩
    refine ⟨⟨hp, hptr, hrl, hrow, hdup, hnz, ?_⟩, hn, rfl, rfl, rfl, rfl⟩
    exact hptr.isGreatest_largest hp.cols_pos (columnWidths_eq hl)
  · rintro ⟨hwf, hn, rfl, rfl, rfl, rfl⟩
    obtain ⟨hl, hfirst, hasc, hlast⟩ := pointersInto_iff.mp hwf.pointers
    refine ⟨hwf.positive, hn, hl, hwf.length_rowIndices, hfirst, hasc, hlast, hwf.row_bounds,
      hwf.nodup_column, hwf.exists_nonzero, ?_⟩
    -- the cached maximum is the one field that the buffers do not contain
    have hwidest := hwf.pointers.isGreatest_largest hwf.positive.cols_pos (columnWidths_eq hl)
    rw [Int.ofNat.inj (hwidest.unique hwf.widest_column)]

theorem WellFormed.ofBuffers {colPtrs rowIndices : List Int} {values : List α} {d : Dims}
    {m : Sparse α} (h : ofBuffers colPtrs rowIndices values d = .ok m) : m.WellFormed :=
  (ofBuffers_eq_ok.mp h).1

theorem ofInterleaved_eq_ok {colPtrs rowIndices : List Int} {words : List Binary64} {d : Dims}
    {m : Sparse Complex} :
    ofInterleaved colPtrs rowIndices words d = .ok m ↔ words.length = 2 * rowIndices.length ∧
      ofBuffers colPtrs rowIndices (Complex.ofInterleaved words) d = .ok m := by
  rw [ofInterleaved, Dims.checkedCount_bind_eq_ok]
  simp only [elementsOfWords, bind_eq_ok, ensure_eq_ok, pure_eq_ok, decide_eq_true_eq, exists_const]
  constructor
  · rintro ⟨_, _, hl, _, ⟨_, rfl⟩, hm⟩
    exact ⟨hl, hm⟩
  · rintro ⟨hl, hm⟩
    obtain ⟨hwf, hn, hd, _⟩ := ofBuffers_eq_ok.mp hm
    exact ⟨hd ▸ hwf.positive, hn, hl, _, ⟨hl ▸ Nat.mul_mod_right 2 _, rfl⟩, hm⟩

theorem ofSplit_eq_ok {colPtrs rowIndices : List Int} {re im : List Binary64} {d : Dims}
    {m : Sparse Complex} :
    ofSplit colPtrs rowIndices re im d = .ok m ↔ im.length = re.length ∧
      rowIndices.length = re.length ∧ ofBuffers colPtrs rowIndices (Complex.ofParts re im) d = .ok m := by
  rw [ofSplit, Dims.checkedCount_bind_eq_ok]
  simp only [bind_eq_ok, ensure_eq_ok, decide_eq_true_eq, exists_const]
  constructor
  · rintro ⟨_, _, hm⟩
    exact hm
  · rintro ⟨hi, hr, hm⟩
    obtain ⟨hwf, hn, hd, _⟩ := ofBuffers_eq_ok.mp hm
    exact ⟨hd ▸ hwf.positive, hn, hi, hr, hm⟩

theorem WellFormed.ofInterleaved {colPtrs rowIndices : List Int} {words : List Binary64} {d : Dims}
    {m : Sparse Complex} (h : ofInterleaved colPtrs rowIndices words d = .ok m) : m.WellFormed :=
  WellFormed.ofBuffers (ofInterleaved_eq_ok.mp h).2

theorem WellFormed.ofSplit {colPtrs rowIndices : List Int} {re im : List Binary64} {d : Dims}
    {m : Sparse Complex} (h : ofSplit colPtrs rowIndices re im d = .ok m) : m.WellFormed :=
  WellFormed.ofBuffers (ofSplit_eq_ok.mp h).2.2

end Sparse

end StoredMatrix
