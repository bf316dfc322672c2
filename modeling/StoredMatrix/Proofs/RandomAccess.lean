import Mathlib.Data.List.Forall2
import StoredMatrix.Proofs.Reachability
import StoredMatrix.Proofs.StructuralEquality

/-!
# Random access

Every position of a matrix can be read, whatever is stored for it, and reads the same once the
matrix is spread out. What is read depends on the stored elements one by one: where two matrices of
one layout store related elements, they have related entries at all positions.
-/

namespace StoredMatrix

/-! ## Reading at any position -/

theorem Storage.WellFormed.get?_eq_none_iff {α : Type} [Element α] {s : Storage α} (h : s.WellFormed)
    {row col : Nat} : s.get? row col = none ↔ s.dims.rows ≤ row ∨ s.dims.cols ≤ col := by
  by_cases hin : row < s.dims.rows ∧ col < s.dims.cols
  · rw [h.get?_eq_some hin.1 hin.2]
    exact iff_of_false nofun (by omega)
  · have hout : s.dims.contains row col = false :=
      Bool.eq_false_iff.mpr fun hc => hin (Dims.contains_iff.mp hc)
    exact iff_of_true (Storage.get?_eq_none hout) (by omega)

namespace Matrix

theorem WellFormed.get?_toDense {m : Matrix} (h : m.WellFormed) (row col : Nat) :
    m.toDense.get? row col = m.get? row col := by
  cases m with
  | real s => exact congrArg (Option.map Scalar.real) (Storage.WellFormed.get?_toDense h row col)
  | complex s => exact congrArg (Option.map Scalar.complex) (Storage.WellFormed.get?_toDense h row col)

theorem WellFormed.get?_eq_none_iff {m : Matrix} (h : m.WellFormed) {row col : Nat} :
    m.get? row col = none ↔ m.dims.rows ≤ row ∨ m.dims.cols ≤ col := by
  cases m with
  | real s => exact Option.map_eq_none_iff.trans (Storage.WellFormed.get?_eq_none_iff h)
  | complex s => exact Option.map_eq_none_iff.trans (Storage.WellFormed.get?_eq_none_iff h)

@[simp] theorem domain_toDense (m : Matrix) : m.toDense.domain = m.domain := by
  cases m <;> rfl

@[simp] theorem shape_toDense (m : Matrix) : m.toDense.shape = .dense := by
  cases m <;> rfl

end Matrix

/-- It stores one entry, a negative zero beside a NaN, on a diagonal of two. -/
def shortRunSample : Diagonal Complex where
  dims := ⟨2, 3⟩
  data := [⟨⟨0x8000000000000000⟩, .nan⟩]

theorem reachable_shortRunSample : (Matrix.complex (.diagonal shortRunSample)).ReachableInMemory :=
  .build (.complex (.diagonalAtOrigin ⟨⟨0x8000000000000000⟩, .nan⟩ ⟨2, 3⟩)) (by decide)
    (by decide +kernel)

/-! ## Related entries -/

section Related

variable {α : Type} {R : α → α → Prop}

theorem related_columnSlice {colPtrs : List Int} {xs ys : List α} (h : List.Forall₂ R xs ys)
    (col : Nat) : List.Forall₂ R (columnSlice colPtrs xs col) (columnSlice colPtrs ys col) :=
  List.forall₂_take _ (List.forall₂_drop _ h)

variable [Element α] (hzero : R Entry.zero Entry.zero)

include hzero

theorem related_getD {xs ys : List α} (h : List.Forall₂ R xs ys) (i : Nat) :
    R (xs.getD i Entry.zero) (ys.getD i Entry.zero) := by
  induction h generalizing i with
  | nil => exact hzero
  | cons hxy _ ih =>
      cases i with
      | zero => exact hxy
      | succ i => exact ih i

theorem related_lookup {rows : List Int} {xs ys : List α} (h : List.Forall₂ R xs ys) (row : Int) :
    R (((rows.zip xs).lookup row).getD Entry.zero) (((rows.zip ys).lookup row).getD Entry.zero) := by
  induction h generalizing rows with
  | nil => simpa using hzero
  | cons hxy _ ih =>
      cases rows with
      | nil => exact hzero
      | cons first rows =>
          rw [List.zip_cons_cons, List.zip_cons_cons, List.lookup_cons, List.lookup_cons]
          split
          · exact hxy
          · exact ih

theorem Dense.related_get? {m n : Dense α} (hd : m.dims = n.dims) (h : List.Forall₂ R m.data n.data)
    (row col : Nat) : R ((m.get? row col).getD Entry.zero) ((n.get? row col).getD Entry.zero) := by
  rw [get?, get?, ← hd]
  split
  · rw [← List.getD_eq_getElem?_getD, ← List.getD_eq_getElem?_getD]
    exact related_getD hzero h _
  · exact hzero

theorem Diagonal.related_get? {m n : Diagonal α} (hd : m.dims = n.dims)
    (h : List.Forall₂ R m.data n.data) (row col : Nat) :
    R ((m.get? row col).getD Entry.zero) ((n.get? row col).getD Entry.zero) := by
  rw [get?, get?, ← hd]
  split
  · by_cases hdiagonal : row = col
    · simpa only [if_pos hdiagonal, Option.getD_some] using related_getD hzero h row
    · simpa only [if_neg hdiagonal, Option.getD_some] using hzero
  · exact hzero

theorem Sparse.related_get? {m n : Sparse α} (hd : m.dims = n.dims) (hp : m.colPtrs = n.colPtrs)
    (hr : m.rowIndices = n.rowIndices) (h : List.Forall₂ R m.values n.values) (row col : Nat) :
    R ((m.get? row col).getD Entry.zero) ((n.get? row col).getD Entry.zero) := by
  rw [get?, get?, ← hd, column, column, ← hp, ← hr]
  split
  · exact related_lookup hzero (related_columnSlice h col) row
  · exact hzero

/-- Of two matrices of one layout, the entries are related if the stored elements are. -/
theorem Storage.related_get? {a b : Storage α} (hlayout : SameLayout a b)
    (h : List.Forall₂ R a.elements b.elements) (row col : Nat) :
    R ((a.get? row col).getD Entry.zero) ((b.get? row col).getD Entry.zero) := by
  cases hlayout with
  | dense hd => exact Dense.related_get? hzero hd h row col
  | diagonal hd => exact Diagonal.related_get? hzero hd h row col
  | sparse hd hp hr => exact Sparse.related_get? hzero hd hp hr h row col

end Related

end StoredMatrix
