import Mathlib.Data.List.FinRange
import StoredMatrix.Proofs.Conversions
import StoredMatrix.Proofs.Reimport

/-!
# The order within a column

A column of a sparse matrix lists its entries in any order. The order shows in the buffers, and in
nothing that is read off the entries: looking a row up finds its one entry wherever it stands, and
spreading out writes no position twice.
-/

namespace StoredMatrix

/-! ## Reading a list in another order -/

section Reorder

variable {β γ : Type} {n : Nat} (σ : Equiv.Perm (Fin n))

/-- The list in which what stood at position `σ i` stands at position `i`. -/
def reorder (xs : List β) : List β := (List.finRange n).filterMap fun i => xs[(σ i : Nat)]?

theorem map_getElem_finRange {xs : List β} (h : xs.length = n) :
    (List.finRange n).map (fun i => xs[i]) = xs := by
  subst h
  exact List.map_getElem_finRange xs

theorem reorder_eq_map {xs : List β} (h : xs.length = n) :
    reorder σ xs = ((List.finRange n).map σ).map fun i => xs[i] := by
  rw [reorder, List.map_map, ← List.filterMap_eq_map]
  refine List.filterMap_congr fun i _ => ?_
  exact List.getElem?_eq_getElem _

theorem length_reorder {xs : List β} (h : xs.length = n) : (reorder σ xs).length = n := by
  rw [reorder_eq_map σ h, List.length_map, List.length_map, List.length_finRange]

theorem reorder_perm {xs : List β} (h : xs.length = n) : (reorder σ xs).Perm xs := by
  have hperm := σ.map_finRange_perm.map fun i => xs[i]
  rwa [← reorder_eq_map σ h, map_getElem_finRange h] at hperm

theorem zip_reorder {xs : List β} {ys : List γ} (hx : xs.length = n) (hy : ys.length = n) :
    (reorder σ xs).zip (reorder σ ys) = reorder σ (xs.zip ys) := by
  have hl : (xs.zip ys).length = n := by rw [List.length_zip, hx, hy, Nat.min_self]
  rw [reorder_eq_map σ hx, reorder_eq_map σ hy, reorder_eq_map σ hl, List.zip_map']
  exact List.map_congr_left fun i _ => List.getElem_zip.symm

/-- No position leaves its column. -/
def KeepsColumns (colPtrs : List Int) (cols : Nat) : Prop :=
  ∀ col < cols, ∀ i : Fin n, columnStart colPtrs col ≤ i → i < columnStart colPtrs (col + 1) →
    columnStart colPtrs col ≤ σ i ∧ σ i < columnStart colPtrs (col + 1)

theorem mem_columnSlice_finRange {colPtrs : List Int} {col : Nat} {i : Fin n} :
    i ∈ columnSlice colPtrs (List.finRange n) col ↔
      columnStart colPtrs col ≤ i ∧ i < columnStart colPtrs (col + 1) := by
  have hget : ∀ k : Nat, (List.finRange n)[k]? = some i ↔ k = i := fun k => by
    rw [List.getElem?_eq_some_iff]
    constructor
    · rintro ⟨hk, rfl⟩
      simp
    · rintro rfl
      exact ⟨by simp, by simp⟩
  simp only [columnSlice, List.mem_iff_getElem?, List.getElem?_take, Option.ite_none_right_eq_some,
    List.getElem?_drop, hget]
  constructor
  · rintro ⟨k, hk, hi⟩
    omega
  · rintro ⟨hstart, hstop⟩
    exact ⟨i - columnStart colPtrs col, by omega, by omega⟩

variable {σ}

/-- A column of the reordered list has the members of the same column as before. -/
theorem columnSlice_reorder_perm {colPtrs : List Int} {cols col : Nat}
    (hσ : KeepsColumns σ colPtrs cols) (hc : col < cols) {xs : List β} (h : xs.length = n) :
    (columnSlice colPtrs (reorder σ xs) col).Perm (columnSlice colPtrs xs col) := by
  have hpositions : (columnSlice colPtrs ((List.finRange n).map σ) col).Perm
      (columnSlice colPtrs (List.finRange n) col) := by
    have hnodup : (columnSlice colPtrs (List.finRange n) col).Nodup :=
      (List.nodup_finRange n).sublist ((List.take_sublist _ _).trans (List.drop_sublist _ _))
    rw [columnSlice_map]
    refine (List.subperm_of_subset (hnodup.map σ.injective) ?_).perm_of_length_le ?_
    · intro j hj
      obtain ⟨i, hi, rfl⟩ := List.mem_map.mp hj
      obtain ⟨hstart, hstop⟩ := mem_columnSlice_finRange.mp hi
      exact mem_columnSlice_finRange.mpr (hσ col hc i hstart hstop)
    · rw [List.length_map]
  have hvalues := hpositions.map fun i => xs[i]
  rwa [← columnSlice_map, ← columnSlice_map, ← reorder_eq_map σ h, map_getElem_finRange h] at hvalues

end Reorder

/-! ## Matrices with the same entries -/

section Entries

variable {α : Type} [Element α] {s t : Storage α} (hd : s.dims = t.dims)
  (hget : ∀ row col, s.get? row col = t.get? row col)

include hd hget

theorem Storage.WellFormed.toDense_eq (hs : s.WellFormed) (ht : t.WellFormed) : s.toDense = t.toDense := by
  refine hs.toDense.ext ht.toDense ?_ fun row _ col _ => ?_
  · rw [dims_toDense, dims_toDense, hd]
  · rw [hs.get?_toDense, ht.get?_toDense, hget]

theorem Storage.text_eq (precision : Option Nat) : s.text precision = t.text precision := by
  rw [text, text, entries, entries, hd]
  simp only [hget]

end Entries

/-! ## Columns in another order -/

theorem lookup_eq_of_perm {β : Type} {entries entries' : List (Int × β)} (h : entries.Perm entries')
    (hn : (entries.map Prod.fst).Nodup) (row : Int) : entries'.lookup row = entries.lookup row := by
  cases hrow : entries'.lookup row with
  | some b =>
      obtain ⟨before, after, hsplit, _⟩ := List.lookup_eq_some_iff.mp hrow
      have hmem : (row, b) ∈ entries' := hsplit ▸ List.mem_append_right before List.mem_cons_self
      exact (lookup_eq_some_of_mem hn (h.mem_iff.mpr hmem)).symm
  | none =>
      refine (List.lookup_eq_none_iff.mpr fun entry hmem => ?_).symm
      exact List.lookup_eq_none_iff.mp hrow entry (h.mem_iff.mp hmem)

namespace Sparse

variable {α : Type} [Element α]

/-- Two matrices of one size list the same entries in each column, in any order. -/
structure SameColumns (p q : Sparse α) : Prop where
  dims_eq : p.dims = q.dims
  colPtrs_eq : p.colPtrs = q.colPtrs
  column_perm : ∀ col < p.dims.cols, (p.column col).Perm (q.column col)

namespace SameColumns

variable {p q : Sparse α} (h : p.SameColumns q) (hp : p.WellFormed) (hq : q.WellFormed)

include h hp

theorem get?_eq (row col : Nat) : p.get? row col = q.get? row col := by
  rw [get?, get?, ← h.dims_eq]
  split
  · rename_i hin
    have hc := (Dims.contains_iff.mp hin).2
    rw [lookup_eq_of_perm (h.column_perm col hc) (hp.nodup_fst_column hc)]
  · rfl

include hq

theorem toDense_eq : p.toDense = q.toDense :=
  Storage.WellFormed.toDense_eq (s := .sparse p) (t := .sparse q) h.dims_eq (h.get?_eq hp) hp hq

theorem storedCount_eq : p.storedCount = q.storedCount := by
  have hlast := hp.pointers.last_eq
  rw [h.colPtrs_eq, h.dims_eq, hq.pointers.last_eq] at hlast
  exact (Int.ofNat.inj (Option.some.inj hlast)).symm

theorem maxColEntries_eq : p.maxColEntries = q.maxColEntries := by
  have hwidest := hp.widest_column
  rw [h.colPtrs_eq, h.dims_eq] at hwidest
  exact Int.ofNat.inj (hwidest.unique hq.widest_column)

end SameColumns

/-! ## Reordered buffers -/

section Reordered

variable {p : Sparse α} (h : p.WellFormed) {σ : Equiv.Perm (Fin p.values.length)}

/-- The matrix whose buffers are read in another order. -/
def reordered (p : Sparse α) (σ : Equiv.Perm (Fin p.values.length)) : Sparse α :=
  { p with rowIndices := reorder σ p.rowIndices, values := reorder σ p.values }

include h

theorem WellFormed.reordered (hσ : KeepsColumns σ p.colPtrs p.dims.cols) : (p.reordered σ).WellFormed where
  positive := h.positive
  pointers := (length_reorder σ (rfl : p.values.length = _)).symm ▸ h.pointers
  length_rowIndices := (length_reorder σ h.length_rowIndices).trans (length_reorder σ rfl).symm
  row_bounds row hrow := h.row_bounds row ((reorder_perm σ h.length_rowIndices).mem_iff.mp hrow)
  nodup_column col hc :=
    (columnSlice_reorder_perm hσ hc h.length_rowIndices).nodup_iff.mpr (h.nodup_column col hc)
  exists_nonzero := by
    obtain ⟨a, ha, hnz⟩ := h.exists_nonzero
    exact ⟨a, (reorder_perm σ rfl).mem_iff.mpr ha, hnz⟩
  widest_column := h.widest_column

theorem WellFormed.sameColumns_reordered (hσ : KeepsColumns σ p.colPtrs p.dims.cols) :
    p.SameColumns (p.reordered σ) where
  dims_eq := rfl
  colPtrs_eq := rfl
  column_perm col hc := by
    rw [column_eq_columnSlice, column_eq_columnSlice, Sparse.reordered, zip_reorder σ h.length_rowIndices rfl]
    exact (columnSlice_reorder_perm hσ hc h.length_zip).symm

end Reordered

end Sparse

/-! ## What is read off the entries -/

namespace Matrix

/-- Two matrices agree in all that can be asked but the buffers that place their entries. -/
structure SameValues (a b : Matrix) : Prop where
  get?_eq : ∀ row col, a.get? row col = b.get? row col
  toDense_eq : a.toDense = b.toDense
  toSparse_eq : a.toSparse = b.toSparse
  display_eq : ∀ precision, a.display precision = b.display precision
  storedCount_eq : a.storedCount = b.storedCount
  memoryUsage_eq : a.memoryUsage = b.memoryUsage
  mathsEq_left : ∀ (t : Tolerance) (m : Matrix), m.Reachable → a.mathsEq t m = b.mathsEq t m
  mathsEq_right : ∀ (t : Tolerance) (m : Matrix), m.Reachable → m.mathsEq t a = m.mathsEq t b

theorem toSparse_toDense (m : Matrix) : m.toDense.toSparse = m.toSparse := by
  cases m <;> rfl

/-- A matrix is shown as its dense form is. -/
theorem WellFormed.display_toDense {m : Matrix} (h : m.WellFormed) (precision : Option Nat) :
    m.toDense.display precision = m.display precision := by
  cases m with
  | real s =>
      exact congrArg String.ofList (Storage.text_eq (s := .dense s.toDense) s.dims_toDense
        (Storage.WellFormed.get?_toDense h) precision)
  | complex s =>
      exact congrArg String.ofList (Storage.text_eq (s := .dense s.toDense) s.dims_toDense
        (Storage.WellFormed.get?_toDense h) precision)

/-- The dense form decides what is read off the entries, all but the room that they take. -/
theorem WellFormed.sameValues {a b : Matrix} (ha : a.WellFormed) (hb : b.WellFormed)
    (hdense : a.toDense = b.toDense) (hcount : a.storedCount = b.storedCount)
    (hmemory : a.memoryUsage = b.memoryUsage) : a.SameValues b where
  get?_eq row col := by rw [← ha.get?_toDense, ← hb.get?_toDense, hdense]
  toDense_eq := hdense
  toSparse_eq := by rw [← a.toSparse_toDense, ← b.toSparse_toDense, hdense]
  display_eq precision := by rw [← ha.display_toDense, ← hb.display_toDense, hdense]
  storedCount_eq := hcount
  memoryUsage_eq := hmemory
  mathsEq_left t m hm := by
    rw [← ha.mathsEq_apply_left (c := .toDense) hm.wellFormed rfl,
      ← hb.mathsEq_apply_left (c := .toDense) hm.wellFormed rfl, hdense]
  mathsEq_right t m hm := by
    rw [← hm.wellFormed.mathsEq_apply_right (c := .toDense) ha rfl,
      ← hm.wellFormed.mathsEq_apply_right (c := .toDense) hb rfl, hdense]

end Matrix

/-- The two ways in which a storage makes up a matrix. -/
inductive Storage.Embedding : {α : Type} → [Element α] → (Storage α → Matrix) → Prop
  | real : Embedding Matrix.real
  | complex : Embedding Matrix.complex

namespace Sparse

variable {α : Type} [Element α]

theorem SameColumns.sameValues {p q : Sparse α} (h : p.SameColumns q) (hp : p.WellFormed)
    (hq : q.WellFormed) {embed : Storage α → Matrix} (he : Storage.Embedding embed) :
    (embed (.sparse p)).SameValues (embed (.sparse q)) := by
  have hdense := h.toDense_eq hp hq
  have hcount : p.values.length = q.values.length := h.storedCount_eq hp hq
  have hmemory : (Storage.sparse p).memoryUsage = (Storage.sparse q).memoryUsage := by
    simp only [Storage.memoryUsage, Storage.elements, storedCount, hcount, h.dims_eq]
  cases he with
  | real =>
      exact Matrix.WellFormed.sameValues hp hq (congrArg (fun d => Matrix.real (.dense d)) hdense)
        hcount hmemory
  | complex =>
      exact Matrix.WellFormed.sameValues hp hq (congrArg (fun d => Matrix.complex (.dense d)) hdense)
        hcount hmemory

/--
Buffers that are accepted are accepted in every order that keeps the entries in their columns, and
make up a matrix that differs in nothing but the order.
-/
theorem column_order_unobservable {colPtrs rowIndices : List Int} {values : List α} {d : Dims}
    {p : Sparse α} (hp : ofBuffers colPtrs rowIndices values d = .ok p)
    {σ : Equiv.Perm (Fin values.length)} (hσ : KeepsColumns σ colPtrs d.cols) :
    ∃ q, ofBuffers colPtrs (reorder σ rowIndices) (reorder σ values) d = .ok q ∧
      q.maxColEntries = p.maxColEntries ∧
      (∃ t, p.toDense.toSparse = .ok t ∧ q.toDense.toSparse = .ok t) ∧
      ∀ embed : Storage α → Matrix, Storage.Embedding embed →
        (embed (.sparse p)).SameValues (embed (.sparse q)) := by
  obtain ⟨hwf, hn, rfl, rfl, rfl, rfl⟩ := ofBuffers_eq_ok.mp hp
  have hwf' := hwf.reordered hσ
  have hsame := hwf.sameColumns_reordered hσ
  refine ⟨p.reordered σ, ofBuffers_eq_ok.mpr ⟨hwf', hn, rfl, rfl, rfl, rfl⟩,
    (hsame.maxColEntries_eq hwf hwf').symm, ⟨_, hwf.toSparse_toDense_eq, ?_⟩, fun embed he => ?_⟩
  · rw [← hsame.toDense_eq hwf hwf', hwf.toSparse_toDense_eq]
  · exact hsame.sameValues hwf hwf' he

theorem column_order_unobservable_descendingSample :
    ofBuffers [0, 2, 3] [1, 0, 1] descendingSample.values ⟨2, 2⟩ = .ok descendingSample ∧
    KeepsColumns (Equiv.swap 0 1 : Equiv.Perm (Fin 3)) [0, 2, 3] 2 ∧
    ∃ q, ofBuffers [0, 2, 3] [0, 1, 1] [⟨0x8000000000000000⟩, .one, .one] ⟨2, 2⟩ = .ok q ∧
      (Matrix.real (.sparse descendingSample)).SameValues (.real (.sparse q)) := by
  have hp : ofBuffers [0, 2, 3] [1, 0, 1] descendingSample.values ⟨2, 2⟩ = .ok descendingSample := by
    decide +kernel
  have hσ : KeepsColumns (Equiv.swap 0 1 : Equiv.Perm (Fin 3)) [0, 2, 3] 2 := by
    unfold KeepsColumns
    decide
  obtain ⟨q, hq, _, _, hsame⟩ := column_order_unobservable hp hσ
  exact ⟨hp, hσ, q, hq, hsame .real .real⟩

end Sparse

end StoredMatrix
