import Mathlib.Data.List.GetD
import StoredMatrix.Proofs.RandomAccess

/-!
# Exporting and importing

The words and buffers that a matrix exports pass every check of the constructors that read such
input, and are read back as the same matrix. Only a diagonal run that is shorter than its diagonal
comes back filled up with zeros.
-/

namespace StoredMatrix

/-! ## Words of elements -/

section Words

variable {β : Type}

/-- The first, third, fifth … of a list. -/
def evenWords : List β → List β
  | x :: _ :: xs => x :: evenWords xs
  | [x] => [x]
  | [] => []

/-- The second, fourth, sixth … of a list. -/
def oddWords : List β → List β
  | _ :: y :: xs => y :: oddWords xs
  | _ => []

end Words

theorem rawWords_real (xs : List Binary64) : rawWords xs = xs := List.flatMap_singleton' xs

section Interleaved

variable (zs : List Complex)

theorem ofInterleaved_rawWords : Complex.ofInterleaved (rawWords zs) = zs :=
  Complex.ofInterleaved_flatMap zs

theorem length_rawWords_complex : (rawWords zs).length = 2 * zs.length :=
  (length_rawWords zs).trans (Nat.mul_comm _ _)

theorem evenWords_rawWords : evenWords (rawWords zs) = zs.map Complex.re := by
  induction zs with
  | nil => rfl
  | cons z zs ih => exact congrArg (z.re :: ·) ih

theorem oddWords_rawWords : oddWords (rawWords zs) = zs.map Complex.im := by
  induction zs with
  | nil => rfl
  | cons z zs ih => exact congrArg (z.im :: ·) ih

theorem ofParts_map : Complex.ofParts (zs.map Complex.re) (zs.map Complex.im) = zs := by
  rw [Complex.ofParts, List.zipWith_map, List.zipWith_self, List.map_id']

end Interleaved

/-! ## Dense matrices -/

namespace Dense.WellFormed

theorem ofColumnMajor_rawWords {m : Dense Binary64} (h : m.WellFormed) (hn : m.dims.count < wordLimit) :
    Dense.ofColumnMajor (rawWords m.data) m.dims = .ok m := by
  rw [rawWords_real]
  exact ofColumnMajor_eq_ok.mpr ⟨h.positive, hn, h.length_data, rfl⟩

variable {m : Dense Complex} (h : m.WellFormed) (hn : m.dims.count < wordLimit)

include h hn

/-- Twice as many words as positions are never taken for real parts. -/
theorem ofInterleaved_rawWords : Dense.ofInterleaved (rawWords m.data) m.dims = .ok m := by
  refine ofInterleaved_eq_ok.mpr ⟨h.positive, hn, .inr ⟨?_, ?_⟩⟩
  · rw [length_rawWords_complex, h.length_data]
  · rw [StoredMatrix.ofInterleaved_rawWords]

theorem ofSplit_rawWords :
    Dense.ofSplit (evenWords (rawWords m.data)) (oddWords (rawWords m.data)) m.dims = .ok m := by
  rw [evenWords_rawWords, oddWords_rawWords]
  refine ofSplit_eq_ok.mpr ⟨h.positive, hn, ?_, ?_, ?_⟩
  · rw [List.length_map, h.length_data]
  · rw [List.length_map, h.length_data]
  · rw [ofParts_map]

end Dense.WellFormed

/-! ## Sparse matrices -/

namespace Sparse.WellFormed

theorem ofBuffers_values {α : Type} [Element α] {m : Sparse α} (h : m.WellFormed)
    (hn : m.dims.count < wordLimit) :
    Sparse.ofBuffers m.colPtrs m.rowIndices m.values m.dims = .ok m :=
  ofBuffers_eq_ok.mpr ⟨h, hn, rfl, rfl, rfl, rfl⟩

theorem ofBuffers_rawWords {m : Sparse Binary64} (h : m.WellFormed) (hn : m.dims.count < wordLimit) :
    Sparse.ofBuffers m.colPtrs m.rowIndices (rawWords m.values) m.dims = .ok m := by
  rw [rawWords_real, h.ofBuffers_values hn]

variable {m : Sparse Complex} (h : m.WellFormed) (hn : m.dims.count < wordLimit)

include h hn

theorem ofInterleaved_rawWords :
    Sparse.ofInterleaved m.colPtrs m.rowIndices (rawWords m.values) m.dims = .ok m := by
  refine ofInterleaved_eq_ok.mpr ⟨?_, ?_⟩
  · rw [length_rawWords_complex, h.length_rowIndices]
  · rw [StoredMatrix.ofInterleaved_rawWords, h.ofBuffers_values hn]

theorem ofSplit_rawWords :
    Sparse.ofSplit m.colPtrs m.rowIndices (evenWords (rawWords m.values)) (oddWords (rawWords m.values))
      m.dims = .ok m := by
  rw [evenWords_rawWords, oddWords_rawWords]
  refine ofSplit_eq_ok.mpr ⟨?_, ?_, ?_⟩
  · rw [List.length_map, List.length_map]
  · rw [List.length_map, h.length_rowIndices]
  · rw [ofParts_map, h.ofBuffers_values hn]

end Sparse.WellFormed

/-! ## Diagonal matrices -/

section Run

variable {α : Type} [Element α] {n : Nat} {xs : List α}

theorem fitTo_eq_append (h : xs.length ≤ n) :
    fitTo n xs = xs ++ List.replicate (n - xs.length) Entry.zero := by
  rw [fitTo, List.take_of_length_le h, List.rightpad]

theorem fitTo_eq_self_iff (h : xs.length ≤ n) : fitTo n xs = xs ↔ xs.length = n := by
  constructor
  · intro heq
    rw [← heq, length_fitTo]
  · rintro rfl
    rw [fitTo_eq_append h, Nat.sub_self, List.replicate_zero, List.append_nil]

theorem getD_append_zeros (xs : List α) (k i : Nat) :
    (xs ++ List.replicate k Entry.zero).getD i Entry.zero = xs.getD i Entry.zero := by
  rcases Nat.lt_or_ge i xs.length with hi | hi
  · rw [List.getD_append _ _ _ _ hi]
  · rw [List.getD_append_right _ _ _ _ hi, List.getD_eq_default xs _ hi, List.getD_eq_getElem?_getD,
      List.getElem?_getD_replicate_default_eq]

theorem getD_fitTo (h : xs.length ≤ n) (i : Nat) :
    (fitTo n xs).getD i Entry.zero = xs.getD i Entry.zero := by
  rw [fitTo_eq_append h, getD_append_zeros]

namespace Diagonal.WellFormed

variable {m d : Diagonal α} (h : m.WellFormed) (hd : Diagonal.ofValues m.data m.dims = .ok d)

include h hd

theorem toDense_ofValues : d.toDense = m.toDense := by
  have hd' := WellFormed.ofValues hd
  obtain ⟨_, _, rfl⟩ := ofValues_eq_ok.mp hd
  refine hd'.toDense.ext h.toDense rfl fun row hr col hc => ?_
  rw [hd'.get?_toDense hr hc, h.get?_toDense hr hc, get?, get?, getD_fitTo h.data_le]

theorem structEq_ofValues :
    Storage.structEq (.diagonal d) (.diagonal m) = true ↔ m.data.length = m.dims.diagonalLength := by
  have hd' := WellFormed.ofValues hd
  obtain ⟨_, _, rfl⟩ := ofValues_eq_ok.mp hd
  rw [Storage.structEq_iff (a := .diagonal _) (b := .diagonal _) hd' h, Storage.diagonal.injEq,
    ← fitTo_eq_self_iff h.data_le]
  exact ⟨congrArg Diagonal.data, congrArg (Diagonal.mk m.dims)⟩

omit hd in
theorem exists_ofValues (hn : m.dims.count < wordLimit) :
    ∃ d, Diagonal.ofValues m.data m.dims = .ok d ∧ d.toDense = m.toDense ∧
      (Storage.structEq (.diagonal d) (.diagonal m) = true ↔
        m.data.length = m.dims.diagonalLength) := by
  obtain ⟨d, hd⟩ : ∃ d, Diagonal.ofValues m.data m.dims = .ok d :=
    ⟨_, ofValues_eq_ok.mpr ⟨h.positive, hn, rfl⟩⟩
  exact ⟨d, hd, h.toDense_ofValues hd, h.structEq_ofValues hd⟩

end Diagonal.WellFormed

end Run

theorem Diagonal.ofSplit_rawWords (zs : List Complex) (d : Dims) :
    ofSplit (evenWords (rawWords zs)) (oddWords (rawWords zs)) d = ofValues zs d := by
  rw [evenWords_rawWords, oddWords_rawWords, ofSplit, List.length_map, List.length_map, ofParts_map,
    decide_eq_true rfl]
  rfl

/-! ## All shapes -/

namespace Matrix

/-- The number of stored elements. -/
def storedCount : Matrix → Nat
  | real s => s.elements.length
  | complex s => s.elements.length

/--
The constructions that read what a matrix exports: its dimensions, its words, and the buffers that
place them. Of a complex matrix they read the words in turn or the two parts of the elements apart.
-/
def reimports (m : Matrix) : List Construction :=
  let words := m.raw
  match m with
  | real (.dense _) => [.real (.denseColumnMajor words m.dims)]
  | complex (.dense _) =>
    [.parts (.denseInterleaved words m.dims),
      .parts (.denseSplit (evenWords words) (oddWords words) m.dims)]
  | real (.diagonal _) => [.real (.diagonal words m.dims)]
  | complex (.diagonal d) =>
    [.complex (.diagonal d.data m.dims),
      .parts (.diagonalSplit (evenWords words) (oddWords words) m.dims)]
  | real (.sparse s) => [.real (.sparseBuffers s.colPtrs s.rowIndices words m.dims)]
  | complex (.sparse s) =>
    [.parts (.sparseInterleaved s.colPtrs s.rowIndices words m.dims),
      .parts (.sparseSplit s.colPtrs s.rowIndices (evenWords words) (oddWords words) m.dims)]

variable {m : Matrix}

theorem WellFormed.build_reimports (h : m.WellFormed) (hn : m.dims.count < wordLimit)
    (hshape : m.shape ≠ .diagonal) : ∀ c ∈ m.reimports, c.build = .ok m := by
  intro c hc
  cases m with
  | real s =>
      cases s with
      | dense d =>
          obtain rfl := List.mem_singleton.mp hc
          exact map_map_of_eq_ok (Dense.WellFormed.ofColumnMajor_rawWords h hn)
      | diagonal d => exact absurd rfl hshape
      | sparse s =>
          obtain rfl := List.mem_singleton.mp hc
          exact map_map_of_eq_ok (Sparse.WellFormed.ofBuffers_rawWords h hn)
  | complex s =>
      cases s with
      | dense d =>
          rcases List.mem_pair.mp hc with rfl | rfl
          · exact map_map_of_eq_ok (Dense.WellFormed.ofInterleaved_rawWords h hn)
          · exact map_map_of_eq_ok (Dense.WellFormed.ofSplit_rawWords h hn)
      | diagonal d => exact absurd rfl hshape
      | sparse s =>
          rcases List.mem_pair.mp hc with rfl | rfl
          · exact map_map_of_eq_ok (Sparse.WellFormed.ofInterleaved_rawWords h hn)
          · exact map_map_of_eq_ok (Sparse.WellFormed.ofSplit_rawWords h hn)

/-- Every import of a diagonal matrix fills up its run. -/
theorem WellFormed.build_reimports_diagonal (h : m.WellFormed) (hn : m.dims.count < wordLimit)
    (hshape : m.shape = .diagonal) : ∀ c ∈ m.reimports, ∃ d, c.build = .ok d ∧
      d.toDense = m.toDense ∧ (d.structEq m = true ↔ m.storedCount = m.dims.diagonalLength) := by
  intro c hc
  cases m with
  | real s =>
      cases s with
      | diagonal m =>
          obtain ⟨d, hd, hdense, heq⟩ := Diagonal.WellFormed.exists_ofValues h hn
          refine ⟨real (.diagonal d), ?_, congrArg (fun n => real (.dense n)) hdense, heq⟩
          obtain rfl := List.mem_singleton.mp hc
          rw [← rawWords_real m.data] at hd
          exact map_map_of_eq_ok hd
      | dense m => cases hshape
      | sparse m => cases hshape
  | complex s =>
      cases s with
      | diagonal m =>
          obtain ⟨d, hd, hdense, heq⟩ := Diagonal.WellFormed.exists_ofValues h hn
          refine ⟨complex (.diagonal d), ?_, congrArg (fun n => complex (.dense n)) hdense, heq⟩
          rcases List.mem_pair.mp hc with rfl | rfl
          · exact map_map_of_eq_ok hd
          · rw [← Diagonal.ofSplit_rawWords] at hd
            exact map_map_of_eq_ok hd
      | dense m => cases hshape
      | sparse m => cases hshape

/--
What a matrix exports is read back as the same matrix, bit by bit. A diagonal one comes back with
the same entries, and is the same if its run was as long as the diagonal. That the inputs fit into
memory keeps the number of positions within the machine word that the constructors ask for.
-/
theorem reimport_identity (h : m.ReachableInMemory) :
    (m.shape ≠ .diagonal → ∀ c ∈ m.reimports, c.build = .ok m) ∧
    (m.shape = .diagonal → ∀ c ∈ m.reimports, ∃ d, c.build = .ok d ∧ d.toDense = m.toDense ∧
      (d.structEq m = true ↔ m.storedCount = m.dims.diagonalLength)) := by
  have hwf := h.reachable.wellFormed
  have hn := h.count_lt
  constructor
  · exact hwf.build_reimports hn
  · exact hwf.build_reimports_diagonal hn

theorem reimport_identity_samples :
    (complex (.sparse descendingSample.toComplex)).ReachableInMemory ∧
    (complex (.sparse descendingSample.toComplex)).shape ≠ .diagonal ∧
    (Construction.parts (.sparseInterleaved [0, 2, 3] [1, 0, 1]
      [.one, .zero, ⟨0x8000000000000000⟩, .zero, .one, .zero] ⟨2, 2⟩)).build =
        .ok (complex (.sparse descendingSample.toComplex)) ∧
    (complex (.diagonal shortRunSample)).ReachableInMemory ∧
    (complex (.diagonal shortRunSample)).shape = .diagonal ∧
    ∃ d, (Construction.parts (.diagonalSplit [⟨0x8000000000000000⟩] [.nan] ⟨2, 3⟩)).build = .ok d ∧
      d.toDense = (complex (.diagonal shortRunSample)).toDense ∧
      d.structEq (complex (.diagonal shortRunSample)) = false := by
  have hsparse := reachable_descendingSample.convert .toComplex rfl
  have hne : (complex (.sparse descendingSample.toComplex)).shape ≠ .diagonal := by decide
  have hbuild := (reimport_identity hsparse).1 hne _ List.mem_cons_self
  obtain ⟨d, hd, hdense, heq⟩ := (reimport_identity reachable_shortRunSample).2 rfl _
    (List.mem_cons_of_mem _ List.mem_cons_self)
  refine ⟨hsparse, hne, hbuild, reachable_shortRunSample, rfl, d, hd, hdense, Bool.eq_false_iff.mpr ?_⟩
  rw [ne_eq, heq]
  decide

end Matrix

end StoredMatrix
