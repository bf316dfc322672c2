import StoredMatrix.Proofs.SquareGrids

/-!
# Structures of grids

Every structure is judged on square grids only, and by the zeros at the positions that it excludes.
Which structures imply which follows from the positions alone, and so does what transposing a grid does
to its structures.
-/

namespace StoredMatrix

/-! ## Excluded positions -/

namespace Structure

/-- Whether an entry at the position has to be zero. -/
def Excludes : Structure → (row col : Nat) → Prop
  | upperTriangular, row, col => row > col
  | lowerTriangular, row, col => col > row
  | upperHessenberg, row, col => row > col + 1
  | lowerHessenberg, row, col => col > row + 1
  | tridiagonal, row, col => ((row : Int) - col).natAbs > 1
  | banded bandwidth, row, col => ((row : Int) - col).natAbs > (bandwidth - 1) / 2

/-- The structure of a transposed grid. -/
def mirrored : Structure → Structure
  | upperTriangular => lowerTriangular
  | lowerTriangular => upperTriangular
  | upperHessenberg => lowerHessenberg
  | lowerHessenberg => upperHessenberg
  | tridiagonal => tridiagonal
  | banded bandwidth => banded bandwidth

theorem excludes_mirrored (s : Structure) (row col : Nat) :
    s.mirrored.Excludes row col ↔ s.Excludes col row := by
  cases s <;> simp only [mirrored, Excludes] <;> omega

theorem checkOrder_mirrored (s : Structure) (order : Nat) :
    s.mirrored.checkOrder order = s.checkOrder order := by
  cases s <;> rfl

theorem excludes_tridiagonal (row col : Nat) : tridiagonal.Excludes row col ↔
    upperHessenberg.Excludes row col ∨ lowerHessenberg.Excludes row col := by
  simp only [Excludes]
  omega

theorem diagonalDistance_eq (row col : Nat) : diagonalDistance row col = ((row : Int) - col).natAbs := by
  rw [diagonalDistance]
  omega

/-- Only a bandwidth can be refused for the order of a grid. -/
theorem checkOrder_eq_ok {s : Structure} (h : ∀ bandwidth, s ≠ banded bandwidth) (order : Nat) :
    s.checkOrder order = .ok () := by
  cases s with
  | banded bandwidth => exact absurd rfl (h bandwidth)
  | upperTriangular => rfl
  | lowerTriangular => rfl
  | upperHessenberg => rfl
  | lowerHessenberg => rfl
  | tridiagonal => rfl

theorem admits_eq_false_iff {s : Structure} {order : Nat} (h : s.checkOrder order = .ok ()) (row col : Nat) :
    s.admits row col = false ↔ s.Excludes row col := by
  cases s with
  | banded bandwidth =>
      -- an accepted bandwidth is positive, so halving it as a natural number loses nothing
      simp only [checkOrder, ensure_eq_ok, Bool.and_eq_true, decide_eq_true_eq] at h
      rw [admits, diagonalDistance_eq, decide_eq_false_iff_not, Excludes]
      omega
  | tridiagonal =>
      rw [admits, diagonalDistance_eq, decide_eq_false_iff_not, Excludes]
      omega
  | upperTriangular => simp only [admits, Excludes, decide_eq_false_iff_not]; omega
  | lowerTriangular => simp only [admits, Excludes, decide_eq_false_iff_not]; omega
  | upperHessenberg => simp only [admits, Excludes, decide_eq_false_iff_not]; omega
  | lowerHessenberg => simp only [admits, Excludes, decide_eq_false_iff_not]; omega

end Structure

/-! ## Zeros of a grid -/

namespace Grid

variable {α : Type} [Entry α] {g : Grid α} {s : Structure}

/-- Every entry at a position of the kind is zero. -/
def ZeroWhere (g : Grid α) (excluded : Nat → Nat → Prop) : Prop :=
  ∀ row col a, g.cell? row col = some a → excluded row col → Entry.isZero a = true

theorem ZeroWhere.mono {p q : Nat → Nat → Prop} (h : g.ZeroWhere q) (hpq : ∀ row col, p row col → q row col) :
    g.ZeroWhere p :=
  fun row col a ha hp => h row col a ha (hpq row col hp)

theorem zeroWhere_congr {p q : Nat → Nat → Prop} (hpq : ∀ row col, p row col ↔ q row col) :
    g.ZeroWhere p ↔ g.ZeroWhere q :=
  ⟨fun h => h.mono fun row col => (hpq row col).mpr, fun h => h.mono fun row col => (hpq row col).mp⟩

theorem zeroWhere_or_iff {p q : Nat → Nat → Prop} :
    g.ZeroWhere (fun row col => p row col ∨ q row col) ↔ g.ZeroWhere p ∧ g.ZeroWhere q := by
  constructor
  · intro h
    exact ⟨h.mono fun _ _ => .inl, h.mono fun _ _ => .inr⟩
  · rintro ⟨hp, hq⟩ row col a ha (h | h)
    · exact hp row col a ha h
    · exact hq row col a ha h

theorem Fills.zeroWhere_transpose {d : Dims} (hg : g.Fills d) {p : Nat → Nat → Prop} :
    g.transpose.ZeroWhere p ↔ g.ZeroWhere fun row col => p col row := by
  simp only [ZeroWhere, hg.cell?_transpose]
  exact ⟨fun h row col => h col row, fun h row col => h col row⟩

theorem zeroOutside_iff : g.zeroOutside s = true ↔ g.ZeroWhere fun row col => s.admits row col = false := by
  simp only [zeroOutside, List.all_eq_true, Prod.forall, List.mem_zipIdx_iff_getElem?, Bool.or_eq_true]
  constructor
  · intro h row col a ha hout
    obtain ⟨entries, hrow, hcol⟩ := Option.bind_eq_some_iff.mp ha
    exact (h entries row hrow a col hcol).resolve_left (Bool.eq_false_iff.mp hout)
  · intro h entries row hrow a col hcol
    cases hadmits : s.admits row col with
    | true => exact .inl rfl
    | false => exact .inr (h row col a (Option.bind_eq_some_iff.mpr ⟨entries, hrow, hcol⟩) hadmits)

theorem zeroOutside_iff_zeroWhere {order : Nat} (h : s.checkOrder order = .ok ()) :
    g.zeroOutside s = true ↔ g.ZeroWhere s.Excludes :=
  zeroOutside_iff.trans (zeroWhere_congr (Structure.admits_eq_false_iff h))

theorem Fills.zeroOutside_transpose {d : Dims} {order : Nat} (hg : g.Fills d)
    (h : s.checkOrder order = .ok ()) : g.transpose.zeroOutside s = g.zeroOutside s.mirrored := by
  have hmirrored : s.mirrored.checkOrder order = .ok () := (s.checkOrder_mirrored order).trans h
  rw [Bool.eq_iff_iff, zeroOutside_iff_zeroWhere h, zeroOutside_iff_zeroWhere hmirrored,
    hg.zeroWhere_transpose]
  exact zeroWhere_congr fun row col => (s.excludes_mirrored row col).symm

/-! ## Structures -/

theorem Fills.has_eq {n : Nat} (hg : g.Fills ⟨n, n⟩) (s : Structure) :
    g.has s = (fun _ => g.zeroOutside s) <$> s.checkOrder n := by
  rw [has, squareOrder_eq_ok.mpr hg]
  change (s.checkOrder n >>= fun _ => pure (g.zeroOutside s)) = _
  cases s.checkOrder n <;> rfl

theorem Fills.has_eq_true {n : Nat} (hg : g.Fills ⟨n, n⟩) :
    g.has s = .ok true ↔ s.checkOrder n = .ok () ∧ g.ZeroWhere s.Excludes := by
  rw [hg.has_eq, map_eq_ok]
  constructor
  · rintro ⟨_, hn, hzero⟩
    exact ⟨hn, (zeroOutside_iff_zeroWhere hn).mp hzero⟩
  · rintro ⟨hn, hzero⟩
    exact ⟨(), hn, (zeroOutside_iff_zeroWhere hn).mpr hzero⟩

/-- A structure that excludes the positions of two others asks for both. -/
theorem Fills.has_and_iff {n : Nat} (hg : g.Fills ⟨n, n⟩) {t u : Structure} (hs : s.checkOrder n = .ok ())
    (ht : t.checkOrder n = .ok ()) (hu : u.checkOrder n = .ok ())
    (hexcludes : ∀ row col, s.Excludes row col ↔ t.Excludes row col ∨ u.Excludes row col) :
    g.has s = .ok true ↔ g.has t = .ok true ∧ g.has u = .ok true := by
  rw [hg.has_eq_true, hg.has_eq_true, hg.has_eq_true, and_iff_right hs, and_iff_right ht, and_iff_right hu,
    ← zeroWhere_or_iff]
  exact zeroWhere_congr hexcludes

theorem has_eq_ok {holds : Bool} :
    g.has s = .ok holds ↔
      ∃ n, g.Fills ⟨n, n⟩ ∧ s.checkOrder n = .ok () ∧ (holds = true ↔ g.ZeroWhere s.Excludes) := by
  simp only [has, bind_eq_ok, squareOrder_eq_ok, pure_eq_ok]
  refine exists_congr fun n => and_congr_right fun _ => ?_
  constructor
  · rintro ⟨_, hn, rfl⟩
    exact ⟨hn, zeroOutside_iff_zeroWhere hn⟩
  · rintro ⟨hn, hholds⟩
    exact ⟨(), hn, Bool.eq_iff_iff.mpr ((zeroOutside_iff_zeroWhere hn).trans hholds.symm)⟩

theorem has_eq_error {e : Error} :
    g.has s = .error e ↔ g.RefusedAsNotSquare e ∨ ∃ n, g.Fills ⟨n, n⟩ ∧ s.checkOrder n = .error e := by
  simp only [has, bind_eq_error, squareOrder_eq_error, squareOrder_eq_ok, pure_ne_error, and_false,
    exists_false, or_false]

theorem has_transpose (h : g.isSquare = true) (s : Structure) : g.transpose.has s = g.has s.mirrored := by
  obtain ⟨n, hg⟩ := isSquare_iff.mp h
  rw [hg.transpose.has_eq, hg.has_eq, s.checkOrder_mirrored]
  cases hn : s.checkOrder n with
  | error e => rfl
  | ok _ => exact congrArg Except.ok (hg.zeroOutside_transpose hn)

/-! ## Structures that ask for no bandwidth -/

section Unbanded

variable (hs : ∀ bandwidth, s ≠ .banded bandwidth)

include hs

theorem exists_has_eq_ok_iff : (∃ holds, g.has s = .ok holds) ↔ g.isSquare = true := by
  rw [isSquare_iff]
  constructor
  · rintro ⟨_, hholds⟩
    obtain ⟨n, hg, _⟩ := has_eq_ok.mp hholds
    exact ⟨n, hg⟩
  · rintro ⟨n, hg⟩
    rw [hg.has_eq, Structure.checkOrder_eq_ok hs]
    exact ⟨_, rfl⟩

theorem has_eq_error_iff {e : Error} : g.has s = .error e ↔ g.RefusedAsNotSquare e := by
  simp only [has_eq_error, Structure.checkOrder_eq_ok hs, reduceCtorEq, and_false, exists_false, or_false]

theorem has_eq_true_iff : g.has s = .ok true ↔ g.isSquare = true ∧ g.ZeroWhere s.Excludes := by
  simp only [has_eq_ok, Structure.checkOrder_eq_ok hs, true_and, true_iff, exists_and_right, isSquare_iff]

end Unbanded

/-- A tridiagonal grid is a Hessenberg one on both sides. -/
theorem has_tridiagonal_iff : g.has .tridiagonal = .ok true ↔
    g.has .upperHessenberg = .ok true ∧ g.has .lowerHessenberg = .ok true := by
  by_cases hsquare : g.isSquare = true
  · obtain ⟨n, hg⟩ := isSquare_iff.mp hsquare
    exact hg.has_and_iff rfl rfl rfl Structure.excludes_tridiagonal
  · have hrefused : ∀ s : Structure, (∀ bandwidth, s ≠ .banded bandwidth) → g.has s ≠ .ok true :=
      fun s hs h => hsquare ((has_eq_true_iff hs).mp h).1
    exact iff_of_false (hrefused .tridiagonal fun _ => nofun) fun h =>
      hrefused .upperHessenberg (fun _ => nofun) h.1

theorem has_of_excludes {s' : Structure} (hs : ∀ bandwidth, s ≠ .banded bandwidth)
    (hs' : ∀ bandwidth, s' ≠ .banded bandwidth)
    (hexcludes : ∀ row col, s'.Excludes row col → s.Excludes row col) (h : g.has s = .ok true) :
    g.has s' = .ok true := by
  obtain ⟨hsquare, hzero⟩ := (has_eq_true_iff hs).mp h
  exact (has_eq_true_iff hs').mpr ⟨hsquare, hzero.mono hexcludes⟩

theorem has_upperHessenberg (h : g.has .upperTriangular = .ok true) : g.has .upperHessenberg = .ok true :=
  has_of_excludes (s := .upperTriangular) (fun _ => nofun) (fun _ => nofun) (fun _ _ => Nat.lt_of_succ_lt) h

theorem has_lowerHessenberg (h : g.has .lowerTriangular = .ok true) : g.has .lowerHessenberg = .ok true :=
  has_of_excludes (s := .lowerTriangular) (fun _ => nofun) (fun _ => nofun) (fun _ _ => Nat.lt_of_succ_lt) h

/-! ## Requiring a structure -/

theorem require_eq_ok {h : Grid α} : g.require s = .ok h ↔ g.has s = .ok true ∧ h = g := by
  simp only [require, bind_eq_ok, ensure_eq_ok, pure_eq_ok, exists_const]
  constructor
  · rintro ⟨_, hhas, rfl, rfl⟩
    exact ⟨hhas, rfl⟩
  · rintro ⟨hhas, rfl⟩
    exact ⟨true, hhas, rfl, rfl⟩

theorem require_eq_error {e : Error} :
    g.require s = .error e ↔ g.has s = .error e ∨
      g.has s = .ok false ∧ .invalidArgument "matrix" (.notOfStructure s.name) = e := by
  simp only [require, bind_eq_error, ensure_eq_error, pure_ne_error, and_false, exists_false, or_false]
  refine or_congr_right ⟨?_, ?_⟩
  · rintro ⟨_, hhas, rfl, he⟩
    exact ⟨hhas, he⟩
  · rintro ⟨hhas, he⟩
    exact ⟨false, hhas, rfl, he⟩

/-! ## Removing the lower triangle -/

theorem exists_removeLowerTriangle_eq_ok_iff :
    (∃ h, g.removeLowerTriangle = .ok h) ↔ g.isSquare = true := by
  simp only [removeLowerTriangle_eq_ok, exists_and_left, exists_eq', and_true, isSquare_iff]

/--
Square grids are judged by their zeros and all others refused, for the first defect of their dimensions
or for their sides. Being tridiagonal is being a Hessenberg grid on both sides, a triangular grid is a
Hessenberg one, and transposing exchanges the sides. A required structure hands on the grid itself or
the reason why it lacks the structure.
-/
theorem structures_decided (g : Grid α) :
    (∀ s : Structure, (∀ bandwidth, s ≠ .banded bandwidth) →
      ((∃ holds, g.has s = .ok holds) ↔ g.isSquare = true) ∧
      (∀ e, g.has s = .error e ↔ g.RefusedAsNotSquare e) ∧
      ∀ holds, g.has s = .ok holds → (holds = true ↔ g.ZeroWhere s.Excludes)) ∧
    ((∃ h, g.removeLowerTriangle = .ok h) ↔ g.isSquare = true) ∧
    (∀ e, g.removeLowerTriangle = .error e ↔ g.RefusedAsNotSquare e) ∧
    (g.has .tridiagonal = .ok true ↔
      g.has .upperHessenberg = .ok true ∧ g.has .lowerHessenberg = .ok true) ∧
    (g.has .upperTriangular = .ok true → g.has .upperHessenberg = .ok true) ∧
    (g.has .lowerTriangular = .ok true → g.has .lowerHessenberg = .ok true) ∧
    (g.isSquare = true →
      (∀ row col, g.transpose.cell? row col = g.cell? col row) ∧
      g.transpose.has .upperTriangular = g.has .lowerTriangular ∧
      g.transpose.has .lowerTriangular = g.has .upperTriangular ∧
      g.transpose.has .upperHessenberg = g.has .lowerHessenberg ∧
      g.transpose.has .lowerHessenberg = g.has .upperHessenberg) ∧
    ∀ s : Structure,
      (∀ h, g.require s = .ok h ↔ g.has s = .ok true ∧ h = g) ∧
      (g.has s = .ok false →
        g.require s = .error (.invalidArgument "matrix" (.notOfStructure s.name))) ∧
      ∀ e, g.has s = .error e → g.require s = .error e := by
  refine ⟨fun s hs => ⟨exists_has_eq_ok_iff hs, fun e => has_eq_error_iff hs, fun holds hholds => ?_⟩,
    exists_removeLowerTriangle_eq_ok_iff, fun e => removeLowerTriangle_eq_error, has_tridiagonal_iff,
    has_upperHessenberg, has_lowerHessenberg, fun hsquare => ⟨?_, has_transpose hsquare _,
      has_transpose hsquare _, has_transpose hsquare _, has_transpose hsquare _⟩, fun s => ⟨?_, ?_, ?_⟩⟩
  · obtain ⟨_, _, _, hzero⟩ := has_eq_ok.mp hholds
    exact hzero
  · obtain ⟨n, hg⟩ := isSquare_iff.mp hsquare
    exact hg.cell?_transpose
  · exact fun h => require_eq_ok
  · exact fun hhas => require_eq_error.mpr (.inr ⟨hhas, rfl⟩)
  · exact fun e he => require_eq_error.mpr (.inl he)

/-- Negative zeros below the diagonal are zeros, a NaN is none; unequal sides come after raggedness. -/
theorem structures_decided_samples :
    (∀ bandwidth, Structure.upperTriangular ≠ .banded bandwidth) ∧
    has .upperTriangular [[.one, .nan], [⟨0x8000000000000000⟩, Binary64.one]] = .ok true ∧
    has .upperHessenberg [[.one, .nan], [⟨0x8000000000000000⟩, Binary64.one]] = .ok true ∧
    isSquare [[.one, .nan], [⟨0x8000000000000000⟩, Binary64.one]] = true ∧
    has .lowerTriangular (transpose [[.one, .nan], [⟨0x8000000000000000⟩, Binary64.one]]) = .ok true ∧
    require .lowerTriangular [[.one, .nan], [⟨0x8000000000000000⟩, Binary64.one]] =
      .error (.invalidArgument "matrix" (.notOfStructure "lower triangular")) ∧
    has .tridiagonal [[(1 : Int), 2]] = .error (.invalidArgument "matrix" (.notSquare ⟨1, 2⟩)) ∧
    removeLowerTriangle [[], [(1 : Int)]] = .error (.ragged "matrix" 1 0 1) := by
  have hunbanded : ∀ bandwidth, Structure.upperTriangular ≠ .banded bandwidth := fun _ => nofun
  have hunbanded' : ∀ bandwidth, Structure.tridiagonal ≠ .banded bandwidth := fun _ => nofun
  have hupper : has .upperTriangular [[.one, .nan], [⟨0x8000000000000000⟩, Binary64.one]] = .ok true := by
    decide +kernel
  have hlower : has .lowerTriangular [[.one, .nan], [⟨0x8000000000000000⟩, Binary64.one]] = .ok false := by
    decide +kernel
  obtain ⟨hdecided, _, _, _, hhessenberg, _, htranspose, hrequire⟩ :=
    structures_decided [[.one, .nan], [⟨0x8000000000000000⟩, Binary64.one]]
  have hsquare := (hdecided _ hunbanded).1.mp ⟨_, hupper⟩
  obtain ⟨hsides, _⟩ := structures_decided [[(1 : Int), 2]]
  obtain ⟨_, _, hragged, _⟩ := structures_decided [[], [(1 : Int)]]
  exact ⟨hunbanded, hupper, hhessenberg hupper, hsquare, (htranspose hsquare).2.2.1.trans hupper,
    (hrequire .lowerTriangular).2.1 hlower,
    ((hsides .tridiagonal hunbanded').2.1 _).mpr (.sides (d := ⟨1, 2⟩) rfl (by decide)),
    (hragged _).mpr (.defect rfl)⟩

end Grid

end StoredMatrix
