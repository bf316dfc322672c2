import StoredMatrix.Proofs.FuzzyEquality
import StoredMatrix.Proofs.Indistinguishability

/-!
# Conversions in either order

Promoting to complex changes the elements and spreading out or compressing changes their layout, so
one can be done before the other. Spreading out fills with zeros that promote to the zeros
of the complex side, and compressing drops an element exactly if it drops the promoted one. The latter
holds of every change of elements that the zero test does not notice.
-/

namespace StoredMatrix

/-! ## Complex matrices are promoted to themselves -/

theorem promoteAll_complex (zs : List Complex) : promoteAll zs = zs := List.map_id zs

@[simp] theorem Storage.toComplex_complex (s : Storage Complex) : s.toComplex = s := by
  cases s with
  | dense m => exact congrArg Storage.dense m.toComplex_complex
  | diagonal m => exact congrArg (fun data => Storage.diagonal ⟨m.dims, data⟩) (promoteAll_complex m.data)
  | sparse m =>
      rw [toComplex, Sparse.toComplex, promoteAll_complex]

variable {α : Type} [Element α]

/-! ## Spreading out -/

theorem Storage.WellFormed.toDense_toComplex {s : Storage α} (h : s.WellFormed) :
    s.toComplex.toDense = s.toDense.toComplex := by
  have hd : s.toComplex.toDense.dims = s.toDense.toComplex.dims := by
    rw [dims_toDense, dims_toComplex]
    exact s.dims_toDense.symm
  refine h.toComplex.toDense.ext h.toDense.toComplex hd fun row _ col _ => ?_
  rw [h.toComplex.get?_toDense, get?_toComplex, Dense.get?_toComplex, h.get?_toDense]

/-! ## Changing every element -/

/-- The matrix with every entry changed. -/
def Dense.map {β : Type} (f : α → β) (m : Dense α) : Dense β := ⟨m.dims, m.data.map f⟩

/-- The matrix with every stored entry changed, at the same places. -/
def Sparse.mapValues {β : Type} (f : α → β) (m : Sparse α) : Sparse β where
  dims := m.dims
  colPtrs := m.colPtrs
  rowIndices := m.rowIndices
  values := m.values.map f
  maxColEntries := m.maxColEntries

section Elementwise

variable {β : Type} {f : α → β}

omit [Element α] in
theorem Sparse.ofColumns_map (d : Dims) (columns : List (List (Nat × α))) :
    Sparse.ofColumns d (columns.map (List.map (Prod.map id f))) = (Sparse.ofColumns d columns).mapValues f := by
  have hlength : (columns.map (List.map (Prod.map id f))).map List.length = columns.map List.length := by
    rw [List.map_map]
    exact List.map_congr_left fun column _ => List.length_map _
  simp only [ofColumns, mapValues, pointersTo, hlength, ← List.map_flatten, List.map_map]
  rfl

variable [Element β] (hf : ∀ a, Entry.isZero (f a) = Entry.isZero a)

include hf

namespace Sparse

theorem nonzeroColumn_map (rows : Nat) (entry : Nat → α) :
    nonzeroColumn rows (fun row => f (entry row)) = (nonzeroColumn rows entry).map (Prod.map id f) := by
  have hnonzero : ∀ a, Entry.isNonzero (f a) = Entry.isNonzero a := fun a => congrArg not (hf a)
  rw [nonzeroColumn_eq, nonzeroColumn_eq, List.map_map]
  simp only [hnonzero]
  rfl

theorem nonzeroColumns_map (d : Dims) (entry : Nat → Nat → α) :
    nonzeroColumns d (fun row col => f (entry row col)) =
      (nonzeroColumns d entry).map (List.map (Prod.map id f)) := by
  rw [nonzeroColumns, nonzeroColumns, List.map_map]
  exact List.map_congr_left fun col _ => nonzeroColumn_map hf d.rows (entry · col)

/-- If the zero test does not tell an element from the changed one, the same places are stored. -/
theorem compress_map (arg : String) (d : Dims) (entry : Nat → Nat → α) :
    compress arg d (fun row col => f (entry row col)) = (compress arg d entry).map (mapValues f) := by
  rw [compress_eq, compress_eq, nonzeroColumns_map hf, ofColumns_map]
  simp only [hf]
  split <;> rfl

end Sparse

namespace Dense

theorem isZero_map (m : Dense α) : (m.map f).isZero = m.isZero := by
  rw [isZero, isZero, Dense.map, List.all_map]
  exact congrArg m.data.all (funext hf)

theorem toSparse_map (hzero : f Entry.zero = Entry.zero) (m : Dense α) :
    (m.map f).toSparse = m.toSparse.map (Sparse.mapValues f) := by
  have hentry : (m.map f).entry = fun row col => f (m.entry row col) := by
    funext row col
    rw [entry, Dense.map, ← hzero, List.getD_map, entry]
  rw [toSparse, hentry]
  exact Sparse.compress_map hf "data" m.dims m.entry

end Dense

end Elementwise

theorem Dense.toSparse_toComplex (m : Dense α) :
    m.toComplex.toSparse = m.toSparse.map Sparse.toComplex :=
  m.toSparse_map Element.isZero_promote promote_entry_zero

/-! ## What promoting keeps -/

theorem Dense.isZero_toComplex (m : Dense α) : m.toComplex.isZero = m.isZero :=
  m.isZero_map Element.isZero_promote

@[simp] theorem Storage.shape_toComplex (s : Storage α) : s.toComplex.shape = s.shape := by
  cases s <;> rfl

/-- Promoting keeps the buffers that place the entries of a sparse matrix, and their cached maximum. -/
@[simp] theorem Storage.details_toComplex (s : Storage α) : s.toComplex.details = s.details := by
  cases s with
  | dense m => exact congrArg Details.dense m.isZero_toComplex
  | diagonal m => rfl
  | sparse m => rfl

/-! ## Matrices -/

namespace Matrix

theorem WellFormed.toDense_toComplex {m : Matrix} (h : m.WellFormed) :
    m.toComplex.toDense = .complex (.dense m.toComplexDense) := by
  cases m with
  | real s => exact congrArg (fun d => complex (.dense d)) (Storage.WellFormed.toDense_toComplex h)
  | complex s => exact congrArg (fun d => complex (.dense d)) (Storage.WellFormed.toDense_toComplex h)

theorem toComplex_toDense (m : Matrix) : m.toDense.toComplex = .complex (.dense m.toComplexDense) := by
  cases m <;> rfl

theorem toDense_toDense (m : Matrix) : m.toDense.toDense = m.toDense := by
  cases m <;> rfl

theorem toComplex_toComplex (m : Matrix) : m.toComplex.toComplex = m.toComplex := by
  cases m with
  | real s => exact congrArg complex s.toComplex.toComplex_complex
  | complex s => exact congrArg complex s.toComplex.toComplex_complex

@[simp] theorem shape_toComplex (m : Matrix) : m.toComplex.shape = m.shape := by
  cases m with
  | real s => exact s.shape_toComplex
  | complex s => exact s.shape_toComplex

@[simp] theorem details_toComplex (m : Matrix) : m.toComplex.details = m.details := by
  cases m with
  | real s => exact s.details_toComplex
  | complex s => exact s.details_toComplex

theorem toRealDense_eq_ok {m : Matrix} {d : Dense Binary64} :
    m.toRealDense = .ok d ↔ m.domain = .real ∧ m.toDense = .real (.dense d) := by
  cases m with
  | real s =>
      simp only [toRealDense, domain, toDense, true_and, Except.ok.injEq, real.injEq, Storage.dense.injEq]
  | complex s => exact ⟨nofun, nofun⟩

end Matrix

end StoredMatrix
