import StoredMatrix.Proofs.Compression

/-!
# Reachable matrices

Every constructor builds a well-formed matrix and every conversion keeps it so, hence every matrix
in which a run ends is well-formed. If the inputs fit into memory, its positions can be counted.
-/

namespace StoredMatrix

/-! ## What one step builds -/

section Shapes

variable {α : Type} [Element α]

@[simp] theorem Storage.dims_toComplex (s : Storage α) : s.toComplex.dims = s.dims := by
  cases s <;> rfl

theorem Storage.WellFormed.toComplex {s : Storage α} (h : s.WellFormed) : s.toComplex.WellFormed := by
  cases s with
  | dense m => exact Dense.WellFormed.toComplex h
  | diagonal m => exact Diagonal.WellFormed.toComplex h
  | sparse m => exact Sparse.WellFormed.toComplex h

theorem Dense.WellFormed.toSparse {m : Dense α} {s : Sparse α} (h : m.WellFormed)
    (hs : m.toSparse = .ok s) : s.WellFormed :=
  Sparse.WellFormed.compress hs h.positive

theorem Layout.wellFormed_of_build {layout : Layout α} {s : Storage α} (h : layout.build = .ok s) :
    s.WellFormed := by
  cases layout with
  | denseScalar value => exact Except.ok.inj h ▸ Dense.WellFormed.scalar value
  | diagonalScalar value => exact Except.ok.inj h ▸ Diagonal.WellFormed.scalar value
  | denseGrid grid => exact of_map_eq_ok h fun _ => Dense.WellFormed.ofGrid
  | denseColumnMajor data dims => exact of_map_eq_ok h fun _ => Dense.WellFormed.ofColumnMajor
  | denseRow row => exact of_map_eq_ok h fun _ => Dense.WellFormed.ofColumnMajor
  | diagonalSquare values => exact of_map_eq_ok h fun _ => Diagonal.WellFormed.square
  | diagonal values dims => exact of_map_eq_ok h fun _ => Diagonal.WellFormed.ofValues
  | diagonalAtOrigin value dims => exact of_map_eq_ok h fun _ => Diagonal.WellFormed.atOrigin
  | sparseGrid grid => exact of_map_eq_ok h fun _ => Sparse.WellFormed.ofGrid
  | sparseBuffers colPtrs rowIndices values dims =>
      exact of_map_eq_ok h fun _ => Sparse.WellFormed.ofBuffers

end Shapes

theorem LogicalLayout.wellFormed_of_build {layout : LogicalLayout} {s : Storage Binary64}
    (h : layout.build = .ok s) : s.WellFormed := by
  cases layout with
  | grid g => exact of_map_eq_ok h fun _ => Dense.WellFormed.logicalOfGrid
  | columnMajor data dims => exact of_map_eq_ok h fun _ => Dense.WellFormed.logicalOfColumnMajor

theorem PartsLayout.wellFormed_of_build {layout : PartsLayout} {s : Storage Complex}
    (h : layout.build = .ok s) : s.WellFormed := by
  cases layout with
  | denseRealGrid grid => exact of_map_eq_ok h fun _ => Dense.WellFormed.ofRealGrid
  | denseSplitGrids re im => exact of_map_eq_ok h fun _ => Dense.WellFormed.ofSplitGrids
  | denseInterleaved words dims => exact of_map_eq_ok h fun _ => Dense.WellFormed.ofInterleaved
  | denseSplit re im dims => exact of_map_eq_ok h fun _ => Dense.WellFormed.ofSplit
  | diagonalSquareReal values => exact of_map_eq_ok h fun _ => Diagonal.WellFormed.squareOfReal
  | diagonalReal values dims => exact of_map_eq_ok h fun _ => Diagonal.WellFormed.ofReal
  | diagonalSquareSplit re im => exact of_map_eq_ok h fun _ => Diagonal.WellFormed.squareOfSplit
  | diagonalSplit re im dims => exact of_map_eq_ok h fun _ => Diagonal.WellFormed.ofSplit
  | sparseRealGrid grid => exact of_map_eq_ok h fun _ => Sparse.WellFormed.ofRealGrid
  | sparseSplitGrids re im => exact of_map_eq_ok h fun _ => Sparse.WellFormed.ofSplitGrids
  | sparseInterleaved colPtrs rowIndices words dims =>
      exact of_map_eq_ok h fun _ => Sparse.WellFormed.ofInterleaved
  | sparseSplit colPtrs rowIndices re im dims => exact of_map_eq_ok h fun _ => Sparse.WellFormed.ofSplit

theorem Construction.wellFormed_of_build {c : Construction} {m : Matrix} (h : c.build = .ok m) :
    m.WellFormed := by
  cases c with
  | real layout => exact of_map_eq_ok h fun _ => layout.wellFormed_of_build
  | logical layout => exact of_map_eq_ok h fun _ => layout.wellFormed_of_build
  | complex layout => exact of_map_eq_ok h fun _ => layout.wellFormed_of_build
  | parts layout => exact of_map_eq_ok h fun _ => layout.wellFormed_of_build

/-! ## What one conversion keeps -/

@[simp] theorem Matrix.dims_toDense (m : Matrix) : m.toDense.dims = m.dims := by
  cases m with
  | real s => exact s.dims_toDense
  | complex s => exact s.dims_toDense

@[simp] theorem Matrix.dims_toComplex (m : Matrix) : m.toComplex.dims = m.dims := by
  cases m with
  | real s => exact s.dims_toComplex
  | complex s => exact s.dims_toComplex

@[simp] theorem Matrix.dims_toComplexDense (m : Matrix) : m.toComplexDense.dims = m.dims := by
  cases m with
  | real s => exact s.dims_toDense
  | complex s => exact s.dims_toDense

theorem Matrix.WellFormed.toComplexDense {m : Matrix} (h : m.WellFormed) :
    m.toComplexDense.WellFormed := by
  cases m with
  | real s => exact (Storage.WellFormed.toDense h).toComplex
  | complex s => exact (Storage.WellFormed.toDense h).toComplex

theorem Conversion.wellFormed_apply {c : Conversion} {m n : Matrix} (hm : m.WellFormed)
    (h : c.apply m = .ok n) : n.WellFormed := by
  cases c with
  | toDense =>
      obtain rfl := Except.ok.inj h
      cases m with
      | real s => exact Storage.WellFormed.toDense hm
      | complex s => exact Storage.WellFormed.toDense hm
  | toComplex =>
      obtain rfl := Except.ok.inj h
      cases m with
      | real s => exact Storage.WellFormed.toComplex hm
      | complex s => exact Storage.WellFormed.toComplex hm
  | toComplexDense => exact Except.ok.inj h ▸ hm.toComplexDense
  | toRealDense =>
      cases m with
      | real s => exact Except.ok.inj h ▸ Storage.WellFormed.toDense hm
      | complex s => cases h
  | toSparse =>
      cases m with
      | real s => exact of_map_eq_ok h fun _ => (Storage.WellFormed.toDense hm).toSparse
      | complex s => exact of_map_eq_ok h fun _ => (Storage.WellFormed.toDense hm).toSparse

theorem Conversion.dims_apply {c : Conversion} {m n : Matrix} (h : c.apply m = .ok n) :
    n.dims = m.dims := by
  cases c with
  | toDense => exact Except.ok.inj h ▸ m.dims_toDense
  | toComplex => exact Except.ok.inj h ▸ m.dims_toComplex
  | toComplexDense => exact Except.ok.inj h ▸ m.dims_toComplexDense
  | toRealDense =>
      cases m with
      | real s => exact Except.ok.inj h ▸ s.dims_toDense
      | complex s => cases h
  | toSparse =>
      cases m with
      | real s =>
          obtain ⟨t, ht, rfl⟩ := map_eq_ok.mp h
          exact (Sparse.dims_compress ht).trans s.dims_toDense
      | complex s =>
          obtain ⟨t, ht, rfl⟩ := map_eq_ok.mp h
          exact (Sparse.dims_compress ht).trans s.dims_toDense

/-! ## Runs -/

theorem Matrix.Reachable.wellFormed {m : Matrix} (h : m.Reachable) : m.WellFormed := by
  induction h with
  | build c h => exact c.wellFormed_of_build h
  | convert c _ h ih => exact c.wellFormed_apply ih h

/-- The storages of reachable matrices, in either domain. -/
inductive Storage.Reachable : {α : Type} → [Element α] → Storage α → Prop
  | real {s : Storage Binary64} : (Matrix.real s).Reachable → Reachable s
  | complex {s : Storage Complex} : (Matrix.complex s).Reachable → Reachable s

theorem Storage.Reachable.wellFormed {α : Type} [Element α] {s : Storage α} (h : s.Reachable) :
    s.WellFormed := by
  cases h with
  | real h => exact h.wellFormed
  | complex h => exact h.wellFormed

/-! ## Inputs that fit into memory -/

/-- More entries than one input can hold, `2 ^ 60`. -/
def inputLimit : Nat := 0x1000000000000000

/-- The numbers of entries of all lists and grids of an input. -/
def Layout.inputSizes {α : Type} : Layout α → List Nat
  | denseGrid grid | sparseGrid grid => [grid.elementCount]
  | denseColumnMajor data _ => [data.length]
  | denseRow row => [row.length]
  | diagonalSquare values | diagonal values _ => [values.length]
  | denseScalar _ | diagonalAtOrigin _ _ | diagonalScalar _ => []
  | sparseBuffers colPtrs rowIndices values _ => [colPtrs.length, rowIndices.length, values.length]

def LogicalLayout.inputSizes : LogicalLayout → List Nat
  | grid g => [g.elementCount]
  | columnMajor data _ => [data.length]

def PartsLayout.inputSizes : PartsLayout → List Nat
  | denseRealGrid grid | sparseRealGrid grid => [grid.elementCount]
  | denseSplitGrids re im | sparseSplitGrids re im => [re.elementCount, im.elementCount]
  | denseInterleaved words _ => [words.length]
  | denseSplit re im _ | diagonalSquareSplit re im | diagonalSplit re im _ => [re.length, im.length]
  | diagonalSquareReal values | diagonalReal values _ => [values.length]
  | sparseInterleaved colPtrs rowIndices words _ => [colPtrs.length, rowIndices.length, words.length]
  | sparseSplit colPtrs rowIndices re im _ =>
    [colPtrs.length, rowIndices.length, re.length, im.length]

def Construction.inputSizes : Construction → List Nat
  | real layout | complex layout => layout.inputSizes
  | logical layout => layout.inputSizes
  | parts layout => layout.inputSizes

/-- The matrices in which a run ends whose inputs fit into memory. -/
inductive Matrix.ReachableInMemory : Matrix → Prop
  | build {m : Matrix} (c : Construction) :
    (∀ n ∈ c.inputSizes, n < inputLimit) → c.build = .ok m → ReachableInMemory m
  | convert {m n : Matrix} (c : Conversion) :
    ReachableInMemory m → c.apply m = .ok n → ReachableInMemory n

theorem lt_wordLimit {n : Nat} (h : n < inputLimit) : n < wordLimit :=
  Nat.lt_trans h (by decide)

theorem Dims.count_one_lt : Dims.count ⟨1, 1⟩ < wordLimit := by decide

theorem Dense.count_ofGrid {α : Type} [Element α] {g : Grid α} {m : Dense α} (h : ofGrid g = .ok m) :
    m.dims.count = g.elementCount := by
  obtain ⟨d, hd, rfl⟩ := ofGrid_eq_ok.mp h
  exact (Grid.elementCount_eq hd).symm

theorem Sparse.count_ofGrid {α : Type} [Element α] {g : Grid α} {m : Sparse α} (h : ofGrid g = .ok m) :
    m.dims.count = g.elementCount := by
  obtain ⟨d, hd, hm⟩ := bind_eq_ok.mp h
  rw [dims_compress hm, Grid.elementCount_eq hd]

theorem Sparse.count_ofInterleaved {colPtrs rowIndices : List Int} {words : List Binary64} {d : Dims}
    {m : Sparse Complex} (h : ofInterleaved colPtrs rowIndices words d = .ok m) :
    m.dims.count < wordLimit := by
  obtain ⟨_, hn, rfl, _⟩ := ofBuffers_eq_ok.mp (ofInterleaved_eq_ok.mp h).2
  exact hn

theorem Sparse.count_ofSplit {colPtrs rowIndices : List Int} {re im : List Binary64} {d : Dims}
    {m : Sparse Complex} (h : ofSplit colPtrs rowIndices re im d = .ok m) :
    m.dims.count < wordLimit := by
  obtain ⟨_, hn, rfl, _⟩ := ofBuffers_eq_ok.mp (ofSplit_eq_ok.mp h).2.2
  exact hn

/-- A grid that fits into memory has few enough positions; other constructors check their number. -/
theorem Layout.count_lt_of_build {α : Type} [Element α] {layout : Layout α} {s : Storage α}
    (hf : ∀ n ∈ layout.inputSizes, n < inputLimit) (h : layout.build = .ok s) :
    s.dims.count < wordLimit := by
  cases layout with
  | denseScalar value => exact Except.ok.inj h ▸ Dims.count_one_lt
  | diagonalScalar value => exact Except.ok.inj h ▸ Dims.count_one_lt
  | denseGrid grid =>
      obtain ⟨m, hm, rfl⟩ := map_eq_ok.mp h
      exact lt_wordLimit ((Dense.count_ofGrid hm).symm ▸ hf _ List.mem_cons_self)
  | sparseGrid grid =>
      obtain ⟨m, hm, rfl⟩ := map_eq_ok.mp h
      exact lt_wordLimit ((Sparse.count_ofGrid hm).symm ▸ hf _ List.mem_cons_self)
  | denseColumnMajor data dims =>
      obtain ⟨m, hm, rfl⟩ := map_eq_ok.mp h
      obtain ⟨_, hlt, _, rfl⟩ := Dense.ofColumnMajor_eq_ok.mp hm
      exact hlt
  | denseRow row =>
      obtain ⟨m, hm, rfl⟩ := map_eq_ok.mp h
      obtain ⟨_, hlt, _, rfl⟩ := Dense.ofColumnMajor_eq_ok.mp hm
      exact hlt
  | diagonalSquare values =>
      obtain ⟨m, hm, rfl⟩ := map_eq_ok.mp h
      obtain ⟨_, hlt, rfl⟩ := Diagonal.square_eq_ok.mp hm
      exact hlt
  | diagonal values dims =>
      obtain ⟨m, hm, rfl⟩ := map_eq_ok.mp h
      obtain ⟨_, hlt, rfl⟩ := Diagonal.ofValues_eq_ok.mp hm
      exact hlt
  | diagonalAtOrigin value dims =>
      obtain ⟨m, hm, rfl⟩ := map_eq_ok.mp h
      obtain ⟨_, hlt, rfl⟩ := Diagonal.atOrigin_eq_ok.mp hm
      exact hlt
  | sparseBuffers colPtrs rowIndices values dims =>
      obtain ⟨m, hm, rfl⟩ := map_eq_ok.mp h
      obtain ⟨_, hlt, rfl, _⟩ := Sparse.ofBuffers_eq_ok.mp hm
      exact hlt

theorem LogicalLayout.count_lt_of_build {layout : LogicalLayout} {s : Storage Binary64}
    (hf : ∀ n ∈ layout.inputSizes, n < inputLimit) (h : layout.build = .ok s) :
    s.dims.count < wordLimit := by
  cases layout with
  | grid g =>
      obtain ⟨m, hm, rfl⟩ := map_eq_ok.mp h
      obtain ⟨n, hn, hm⟩ := bind_eq_ok.mp hm
      obtain rfl := pure_eq_ok.mp hm
      exact lt_wordLimit ((Dense.count_ofGrid hn).symm ▸ hf _ List.mem_cons_self)
  | columnMajor data dims =>
      obtain ⟨m, hm, rfl⟩ := map_eq_ok.mp h
      obtain ⟨n, hn, hm⟩ := bind_eq_ok.mp hm
      obtain rfl := pure_eq_ok.mp hm
      obtain ⟨_, hlt, _, rfl⟩ := Dense.ofColumnMajor_eq_ok.mp hn
      exact hlt

theorem PartsLayout.count_lt_of_build {layout : PartsLayout} {s : Storage Complex}
    (hf : ∀ n ∈ layout.inputSizes, n < inputLimit) (h : layout.build = .ok s) :
    s.dims.count < wordLimit := by
  cases layout with
  | denseRealGrid grid =>
      obtain ⟨m, hm, rfl⟩ := map_eq_ok.mp h
      obtain ⟨n, hn, hm⟩ := bind_eq_ok.mp hm
      obtain rfl := pure_eq_ok.mp hm
      exact lt_wordLimit ((Dense.count_ofGrid hn).symm ▸ hf _ List.mem_cons_self)
  | denseSplitGrids re im =>
      obtain ⟨m, hm, rfl⟩ := map_eq_ok.mp h
      obtain ⟨d, hd, hm⟩ := bind_eq_ok.mp hm
      obtain rfl := pure_eq_ok.mp hm
      have hre := (Grid.pairedDims_eq_ok.mp hd).1
      exact lt_wordLimit (Grid.elementCount_eq hre ▸ hf _ List.mem_cons_self)
  | denseInterleaved words dims =>
      obtain ⟨m, hm, rfl⟩ := map_eq_ok.mp h
      obtain ⟨_, hlt, ⟨_, rfl⟩ | ⟨_, rfl⟩⟩ := Dense.ofInterleaved_eq_ok.mp hm
      · exact hlt
      · exact hlt
  | denseSplit re im dims =>
      obtain ⟨m, hm, rfl⟩ := map_eq_ok.mp h
      obtain ⟨_, hlt, _, _, rfl⟩ := Dense.ofSplit_eq_ok.mp hm
      exact hlt
  | diagonalSquareReal values =>
      obtain ⟨m, hm, rfl⟩ := map_eq_ok.mp h
      obtain ⟨n, hn, hm⟩ := bind_eq_ok.mp hm
      obtain rfl := pure_eq_ok.mp hm
      obtain ⟨_, hlt, rfl⟩ := Diagonal.square_eq_ok.mp hn
      exact hlt
  | diagonalReal values dims =>
      obtain ⟨m, hm, rfl⟩ := map_eq_ok.mp h
      obtain ⟨n, hn, hm⟩ := bind_eq_ok.mp hm
      obtain rfl := pure_eq_ok.mp hm
      obtain ⟨_, hlt, rfl⟩ := Diagonal.ofValues_eq_ok.mp hn
      exact hlt
  | diagonalSquareSplit re im =>
      obtain ⟨m, hm, rfl⟩ := map_eq_ok.mp h
      obtain ⟨_, _, hm⟩ := bind_eq_ok.mp hm
      obtain ⟨_, hlt, rfl⟩ := Diagonal.square_eq_ok.mp hm
      exact hlt
  | diagonalSplit re im dims =>
      obtain ⟨m, hm, rfl⟩ := map_eq_ok.mp h
      obtain ⟨_, _, hm⟩ := bind_eq_ok.mp hm
      obtain ⟨_, hlt, rfl⟩ := Diagonal.ofValues_eq_ok.mp hm
      exact hlt
  | sparseRealGrid grid =>
      obtain ⟨m, hm, rfl⟩ := map_eq_ok.mp h
      obtain ⟨n, hn, hm⟩ := bind_eq_ok.mp hm
      obtain rfl := pure_eq_ok.mp hm
      exact lt_wordLimit ((Sparse.count_ofGrid hn).symm ▸ hf _ List.mem_cons_self)
  | sparseSplitGrids re im =>
      obtain ⟨m, hm, rfl⟩ := map_eq_ok.mp h
      obtain ⟨d, hd, hm⟩ := bind_eq_ok.mp hm
      have hre := (Grid.pairedDims_eq_ok.mp hd).1
      rw [Storage.dims, Sparse.dims_compress hm, ← Grid.elementCount_eq hre]
      exact lt_wordLimit (hf _ List.mem_cons_self)
  | sparseInterleaved colPtrs rowIndices words dims =>
      obtain ⟨m, hm, rfl⟩ := map_eq_ok.mp h
      exact Sparse.count_ofInterleaved hm
  | sparseSplit colPtrs rowIndices re im dims =>
      obtain ⟨m, hm, rfl⟩ := map_eq_ok.mp h
      exact Sparse.count_ofSplit hm

theorem Construction.count_lt_of_build {c : Construction} {m : Matrix}
    (hf : ∀ n ∈ c.inputSizes, n < inputLimit) (h : c.build = .ok m) : m.dims.count < wordLimit := by
  cases c with
  | real layout =>
      obtain ⟨s, hs, rfl⟩ := map_eq_ok.mp h
      exact layout.count_lt_of_build hf hs
  | logical layout =>
      obtain ⟨s, hs, rfl⟩ := map_eq_ok.mp h
      exact layout.count_lt_of_build hf hs
  | complex layout =>
      obtain ⟨s, hs, rfl⟩ := map_eq_ok.mp h
      exact layout.count_lt_of_build hf hs
  | parts layout =>
      obtain ⟨s, hs, rfl⟩ := map_eq_ok.mp h
      exact layout.count_lt_of_build hf hs

theorem Matrix.ReachableInMemory.count_lt {m : Matrix} (h : m.ReachableInMemory) :
    m.dims.count < wordLimit := by
  induction h with
  | build c hf h => exact c.count_lt_of_build hf h
  | convert c _ h ih => exact (c.dims_apply h).symm ▸ ih

theorem Matrix.ReachableInMemory.reachable {m : Matrix} (h : m.ReachableInMemory) : m.Reachable := by
  induction h with
  | build c _ h => exact .build c h
  | convert c _ h ih => exact .convert c ih h

theorem Matrix.ReachableInMemory.wellFormed {m : Matrix} (h : m.ReachableInMemory) : m.WellFormed :=
  h.reachable.wellFormed

/-- Every matrix in which a run ends is well-formed, and its positions are few enough to count. -/
theorem Matrix.ReachableInMemory.invariant {m : Matrix} (h : m.ReachableInMemory) :
    m.WellFormed ∧ m.dims.count < wordLimit :=
  ⟨h.wellFormed, h.count_lt⟩

/-- The storages of the matrices in which a run ends whose inputs fit into memory, in either domain. -/
inductive Storage.ReachableInMemory : {α : Type} → [Element α] → Storage α → Prop
  | real {s : Storage Binary64} : (Matrix.real s).ReachableInMemory → ReachableInMemory s
  | complex {s : Storage Complex} : (Matrix.complex s).ReachableInMemory → ReachableInMemory s

theorem Storage.ReachableInMemory.wellFormed {α : Type} [Element α] {s : Storage α}
    (h : s.ReachableInMemory) : s.WellFormed := by
  cases h with
  | real h => exact h.wellFormed
  | complex h => exact h.wellFormed

theorem Storage.ReachableInMemory.count_lt {α : Type} [Element α] {s : Storage α}
    (h : s.ReachableInMemory) : s.dims.count < wordLimit := by
  cases h with
  | real h => exact h.count_lt
  | complex h => exact h.count_lt

/-- Its first column lists the second row before the first one, and stores a negative zero there. -/
def descendingSample : Sparse Binary64 where
  dims := ⟨2, 2⟩
  colPtrs := [0, 2, 3]
  rowIndices := [1, 0, 1]
  values := [.one, ⟨0x8000000000000000⟩, .one]
  maxColEntries := 2

theorem reachable_descendingSample : (Matrix.real (.sparse descendingSample)).ReachableInMemory :=
  .build (.real (.sparseBuffers [0, 2, 3] [1, 0, 1] descendingSample.values ⟨2, 2⟩)) (by decide)
    (by decide +kernel)

theorem invariant_descendingSample :
    (Matrix.complex (.sparse descendingSample.toComplex)).ReachableInMemory ∧
      (Matrix.complex (.sparse descendingSample.toComplex)).WellFormed ∧
      (Matrix.complex (.sparse descendingSample.toComplex)).dims.count < wordLimit := by
  have hconvert := reachable_descendingSample.convert .toComplex rfl
  exact ⟨hconvert, hconvert.invariant⟩

end StoredMatrix
