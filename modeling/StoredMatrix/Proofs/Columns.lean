import StoredMatrix.Storage.Sparse
import Mathlib.Data.List.Basic
import Mathlib.Order.Bounds.Basic

/-!
# Columns of a buffer

Pointers that ascend from zero to the length of a buffer cut it into columns. The columns side by
side are the buffer again, and columns laid out side by side are what their pointers cut out.
-/

namespace StoredMatrix

/-! ## Pointers -/

/-- Pointers that cut a buffer of `count` entries into `cols` columns. -/
structure PointersInto (colPtrs : List Int) (cols count : Nat) : Prop where
  length_eq : colPtrs.length = cols + 1
  first_eq : colPtrs[0]? = some 0
  ascending : colPtrs.Pairwise (· ≤ ·)
  last_eq : colPtrs[cols]? = some (count : Int)

namespace PointersInto

variable {β : Type} {colPtrs : List Int} {cols count : Nat} (h : PointersInto colPtrs cols count)

include h

theorem getElem?_eq {i : Nat} (hi : i ≤ cols) : colPtrs[i]? = some (columnStart colPtrs i : Int) := by
  have hlt : i < colPtrs.length := by have := h.length_eq; omega
  have h0 : 0 < colPtrs.length := by omega
  have hfirst : colPtrs[0] = 0 := by simpa [List.getElem?_eq_getElem h0] using h.first_eq
  -- no pointer lies below the first one
  have hnn : 0 ≤ colPtrs[i] := by
    rcases Nat.eq_zero_or_pos i with rfl | hpos
    · exact hfirst ▸ Int.le_refl _
    · exact hfirst ▸ List.pairwise_iff_getElem.mp h.ascending 0 i h0 hlt hpos
  rw [columnStart, List.getD_eq_getElem?_getD, List.getElem?_eq_getElem hlt, Option.getD_some,
    Int.toNat_of_nonneg hnn]

theorem columnStart_zero : columnStart colPtrs 0 = 0 := by
  have := (h.getElem?_eq (Nat.zero_le _)).symm.trans h.first_eq
  simpa using this

theorem columnStart_cols : columnStart colPtrs cols = count := by
  have := (h.getElem?_eq (Nat.le_refl _)).symm.trans h.last_eq
  exact Int.ofNat.inj (Option.some.inj this)

theorem columnStart_mono {i j : Nat} (hij : i ≤ j) (hj : j ≤ cols) :
    columnStart colPtrs i ≤ columnStart colPtrs j := by
  rcases Nat.eq_or_lt_of_le hij with rfl | hlt
  · exact Nat.le_refl _
  · have hi := h.getElem?_eq (Nat.le_trans hij hj)
    have hj' := h.getElem?_eq hj
    obtain ⟨hil, hi⟩ := List.getElem?_eq_some_iff.mp hi
    obtain ⟨hjl, hj'⟩ := List.getElem?_eq_some_iff.mp hj'
    have := List.pairwise_iff_getElem.mp h.ascending i j hil hjl hlt
    omega

theorem columnStart_le {i : Nat} (hi : i ≤ cols) : columnStart colPtrs i ≤ count :=
  h.columnStart_cols ▸ h.columnStart_mono hi (Nat.le_refl _)

theorem flatMap_columnSlice_take (buffer : List β) {n : Nat} (hn : n ≤ cols) :
    (List.range n).flatMap (columnSlice colPtrs buffer) = buffer.take (columnStart colPtrs n) := by
  induction n with
  | zero => rw [h.columnStart_zero]; rfl
  | succ n ih =>
      -- the next column continues the buffer where those before it end
      have hle := h.columnStart_mono (Nat.le_succ n) hn
      rw [List.range_succ, List.flatMap_append, ih (by omega), List.flatMap_singleton, columnSlice,
        ← List.take_add, Nat.add_sub_cancel' hle]

/-- All columns side by side are the buffer. -/
theorem flatMap_columnSlice {buffer : List β} (hl : buffer.length = count) :
    (List.range cols).flatMap (columnSlice colPtrs buffer) = buffer := by
  rw [h.flatMap_columnSlice_take buffer (Nat.le_refl _), h.columnStart_cols, ← hl, List.take_length]

theorem length_columnSlice {buffer : List β} (hl : buffer.length = count) {col : Nat} (hc : col < cols) :
    (columnSlice colPtrs buffer col).length = columnStart colPtrs (col + 1) - columnStart colPtrs col := by
  have hle : columnStart colPtrs (col + 1) ≤ count := h.columnStart_le hc
  rw [columnSlice, List.length_take, List.length_drop]
  omega

end PointersInto

theorem columnSlice_map {β γ : Type} (colPtrs : List Int) (f : β → γ) (buffer : List β) (col : Nat) :
    columnSlice colPtrs (buffer.map f) col = (columnSlice colPtrs buffer col).map f := by
  simp only [columnSlice, List.map_take, List.map_drop]

/-! ## Columns side by side -/

section Layout

variable {β : Type}

/-- The sums of the first none, one, two … numbers, on top of a given start. -/
def runningTotals (start : Nat) : List Nat → List Nat
  | [] => [start]
  | n :: ns => start :: runningTotals (start + n) ns

/-- The pointers to columns that are laid out side by side. -/
def pointersTo (columns : List (List β)) : List Int :=
  (runningTotals 0 (columns.map List.length)).map Int.ofNat

theorem length_runningTotals (start : Nat) (ns : List Nat) :
    (runningTotals start ns).length = ns.length + 1 := by
  induction ns generalizing start with
  | nil => rfl
  | cons n ns ih => rw [runningTotals, List.length_cons, ih, List.length_cons]

theorem getElem?_runningTotals (start : Nat) (columns : List (List β)) {i : Nat}
    (hi : i ≤ columns.length) :
    (runningTotals start (columns.map List.length))[i]? =
      some (start + (columns.take i).flatten.length) := by
  induction columns generalizing start i with
  | nil => obtain rfl := Nat.le_zero.mp hi; rfl
  | cons column columns ih =>
      cases i with
      | zero => rfl
      | succ i =>
          rw [List.map_cons, runningTotals, List.getElem?_cons_succ, ih _ (Nat.le_of_succ_le_succ hi),
            List.take_succ_cons, List.flatten_cons, List.length_append, Nat.add_assoc]

theorem getElem?_pointersTo (columns : List (List β)) {i : Nat} (hi : i ≤ columns.length) :
    (pointersTo columns)[i]? = some ((columns.take i).flatten.length : Int) := by
  rw [pointersTo, List.getElem?_map, getElem?_runningTotals 0 columns hi, Nat.zero_add]
  rfl

theorem columnStart_pointersTo (columns : List (List β)) {i : Nat} (hi : i ≤ columns.length) :
    columnStart (pointersTo columns) i = (columns.take i).flatten.length := by
  rw [columnStart, List.getD_eq_getElem?_getD, getElem?_pointersTo columns hi]
  rfl

theorem length_take_flatten_le (columns : List (List β)) {i j : Nat} (hij : i ≤ j) :
    (columns.take i).flatten.length ≤ (columns.take j).flatten.length := by
  obtain ⟨rest, hrest⟩ := List.take_prefix_take_left (l := columns) hij
  rw [← hrest, List.flatten_append, List.length_append]
  exact Nat.le_add_right _ _

@[simp] theorem length_pointersTo (columns : List (List β)) : (pointersTo columns).length = columns.length + 1 := by
  rw [pointersTo, List.length_map, length_runningTotals, List.length_map]

theorem pointersTo_pointersInto (columns : List (List β)) :
    PointersInto (pointersTo columns) columns.length columns.flatten.length where
  length_eq := length_pointersTo columns
  first_eq := getElem?_pointersTo columns (Nat.zero_le _)
  ascending := by
    rw [List.pairwise_iff_getElem]
    intro i j hi hj hij
    have hl := length_pointersTo columns
    have hpi := getElem?_pointersTo columns (i := i) (by omega)
    have hpj := getElem?_pointersTo columns (i := j) (by omega)
    rw [List.getElem?_eq_getElem hi, Option.some.injEq] at hpi
    rw [List.getElem?_eq_getElem hj, Option.some.injEq] at hpj
    rw [hpi, hpj]
    exact Int.ofNat_le.mpr (length_take_flatten_le columns (Nat.le_of_lt hij))
  last_eq := by rw [getElem?_pointersTo columns (Nat.le_refl _), List.take_length]

/-- Each column is what its pointers cut out of all of them side by side. -/
theorem columnSlice_pointersTo (columns : List (List β)) {col : Nat} (hc : col < columns.length) :
    columnSlice (pointersTo columns) columns.flatten col = columns[col] := by
  have htake : (columns.take (col + 1)).flatten = (columns.take col).flatten ++ columns[col] := by
    rw [List.take_succ_eq_append_getElem hc, List.flatten_append, List.flatten_singleton]
  have hsplit : columns.flatten =
      (columns.take col).flatten ++ (columns[col] ++ (columns.drop (col + 1)).flatten) := by
    rw [← List.append_assoc, ← htake, ← List.flatten_append, List.take_append_drop]
  rw [columnSlice, columnStart_pointersTo columns (Nat.le_of_lt hc), columnStart_pointersTo columns hc,
    htake, List.length_append, Nat.add_sub_cancel_left]
  conv => lhs; rw [hsplit]
  rw [List.drop_left, List.take_left]

/-- Pointers are determined by the columns that they cut out. -/
theorem PointersInto.pointersTo_columns {colPtrs : List Int} {cols : Nat} {buffer : List β}
    (h : PointersInto colPtrs cols buffer.length) :
    pointersTo ((List.range cols).map (columnSlice colPtrs buffer)) = colPtrs := by
  apply List.ext_getElem?
  intro i
  rcases Nat.lt_or_ge cols i with hi | hi
  · rw [List.getElem?_eq_none, List.getElem?_eq_none]
    · rw [h.length_eq]; omega
    · rw [length_pointersTo, List.length_map, List.length_range]; omega
  · rw [getElem?_pointersTo _ (by simpa using hi), h.getElem?_eq hi, ← List.map_take, List.take_range,
      Nat.min_eq_left hi, ← List.flatMap_def, h.flatMap_columnSlice_take buffer hi, List.length_take,
      Nat.min_eq_left (h.columnStart_le hi)]

end Layout

/-! ## The widest column -/

theorem largest_isGreatest {ns : List Nat} (h : ns ≠ []) : IsGreatest {n | n ∈ ns} (largest ns) := by
  have hmax : ns.max? = some (largest ns) := by
    cases ns with
    | nil => exact absurd rfl h
    | cons n ns => rw [List.max?_cons', largest, List.foldl_cons, Nat.zero_max]
  exact ⟨List.max?_mem hmax, fun n hn => (List.max?_eq_some_iff.mp hmax).2 n hn⟩

end StoredMatrix
