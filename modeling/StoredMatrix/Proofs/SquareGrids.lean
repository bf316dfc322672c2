import StoredMatrix.Grid.Structure
import StoredMatrix.Proofs.GridReading

/-!
# Square grids

Whether a grid is square is asked in two ways: as a question, and as a check that tells the order or
the cause of the refusal. Both go by the same grids. Removing the lower triangle changes entries by
their positions, transposing exchanges rows and columns at every position.
-/

namespace StoredMatrix

namespace Grid

variable {α : Type} {g h : Grid α} {d : Dims}

/-! ## The two checks -/

/-- The causes for which a grid is refused where a square one is needed. -/
inductive RefusedAsNotSquare (g : Grid α) : Error → Prop
  /-- It has no dimensions. -/
  | defect {e : Error} : g.dims "matrix" = .error e → RefusedAsNotSquare g e
  /-- Its sides are unequal. -/
  | sides {d : Dims} : g.dims "matrix" = .ok d → d.rows ≠ d.cols →
      RefusedAsNotSquare g (.invalidArgument "matrix" (.notSquare d))

theorem isSquare_iff : g.isSquare = true ↔ ∃ n, g.Fills ⟨n, n⟩ := by
  cases g with
  | nil =>
      refine ⟨nofun, fun ⟨n, h⟩ => ?_⟩
      exact absurd h.length_eq (Nat.ne_of_lt h.positive.rows_pos)
  | cons first rest =>
      simp only [isSquare, List.head?_cons, isRagged, Bool.and_eq_true, Bool.not_eq_true',
        Option.isSome_eq_false_iff, Option.isNone_iff_eq_none, firstRaggedRow?_eq_none, decide_eq_true_eq]
      constructor
      · rintro ⟨heven, hl⟩
        have hpos : 0 < first.length := hl ▸ Nat.succ_pos rest.length
        exact ⟨first.length, ⟨hpos, hpos⟩, hl.symm, heven⟩
      · rintro ⟨n, h⟩
        have hfirst : first.length = n := h.length_row first List.mem_cons_self
        exact ⟨fun row hrow => (h.length_row row hrow).trans hfirst.symm, hfirst.trans h.length_eq.symm⟩

theorem squareOrder_eq_ok {n : Nat} : g.squareOrder = .ok n ↔ g.Fills ⟨n, n⟩ := by
  simp only [squareOrder, bind_eq_ok, dims_eq_ok_iff_fills, ensure_eq_ok, pure_eq_ok, decide_eq_true_eq,
    exists_const]
  constructor
  · rintro ⟨⟨rows, cols⟩, h, hsides, rfl⟩
    cases hsides
    exact h
  · intro h
    exact ⟨_, h, rfl, rfl⟩

theorem squareOrder_eq_error {e : Error} : g.squareOrder = .error e ↔ g.RefusedAsNotSquare e := by
  simp only [squareOrder, bind_eq_error, ensure_eq_error, pure_ne_error, decide_eq_false_iff_not, and_false,
    exists_false, or_false]
  constructor
  · rintro (he | ⟨d, hd, hsides, rfl⟩)
    · exact .defect he
    · exact .sides hd hsides
  · rintro (he | ⟨hd, hsides⟩)
    · exact .inl he
    · exact .inr ⟨_, hd, hsides, rfl⟩

theorem exists_refusedAsNotSquare (h : g.isSquare = false) : ∃ e, g.RefusedAsNotSquare e := by
  cases horder : g.squareOrder with
  | error e => exact ⟨e, squareOrder_eq_error.mp horder⟩
  | ok n => exact absurd (isSquare_iff.mpr ⟨n, squareOrder_eq_ok.mp horder⟩) (Bool.eq_false_iff.mp h)

/-! ## Entries -/

theorem Fills.lt_of_cell? (hg : g.Fills d) {row col : Nat} {a : α} (ha : g.cell? row col = some a) :
    row < d.rows ∧ col < d.cols := by
  have hin := mt hg.cell?_eq_none_iff.mpr (ha ▸ Option.some_ne_none a)
  omega

/-- Two grids of the same dimensions are equal if they have the same entries. -/
theorem Fills.ext (hg : g.Fills d) (hh : h.Fills d) (hcell : ∀ row col, g.cell? row col = h.cell? row col) :
    g = h := by
  refine List.ext_getElem (hg.length_eq.trans hh.length_eq.symm) fun row hr hr' => ?_
  refine List.ext_getElem? fun col => ?_
  have hread := hcell row col
  rwa [cell?, cell?, List.getElem?_eq_getElem hr, List.getElem?_eq_getElem hr', Option.bind_some,
    Option.bind_some] at hread

/-! ## Changing entries by their positions -/

section MapEntries

variable {β : Type} (f : Nat → Nat → α → β)

/-- The grid with every entry changed, depending on its position. -/
def mapEntries (g : Grid α) : Grid β := g.mapIdx fun row entries => entries.mapIdx (f row)

theorem cell?_mapEntries (row col : Nat) :
    (g.mapEntries f).cell? row col = (g.cell? row col).map (f row col) := by
  rw [cell?, mapEntries, List.getElem?_mapIdx, cell?]
  cases g[row]? with
  | none => rfl
  | some entries => rw [Option.map_some, Option.bind_some, Option.bind_some, List.getElem?_mapIdx]

theorem Fills.mapEntries (hg : g.Fills d) : (g.mapEntries f).Fills d where
  positive := hg.positive
  length_eq := by rw [Grid.mapEntries, List.length_mapIdx, hg.length_eq]
  length_row := by
    intro row hrow
    obtain ⟨i, hi, rfl⟩ := List.mem_mapIdx.mp hrow
    rw [List.length_mapIdx, hg.length_row _ (List.getElem_mem hi)]

end MapEntries

/-! ## Removing the lower triangle -/

section Removal

variable [Entry α]

theorem removeLowerTriangle_eq_ok : g.removeLowerTriangle = .ok h ↔
    (∃ n, g.Fills ⟨n, n⟩) ∧ g.mapEntries (fun row col a => if col < row then Entry.zero else a) = h := by
  simp only [removeLowerTriangle, bind_eq_ok, squareOrder_eq_ok, pure_eq_ok, exists_and_right]
  rfl

theorem removeLowerTriangle_eq_error {e : Error} :
    g.removeLowerTriangle = .error e ↔ g.RefusedAsNotSquare e := by
  simp only [removeLowerTriangle, bind_eq_error, squareOrder_eq_error, pure_ne_error, and_false, exists_false,
    or_false]

end Removal

/-! ## Transposition -/

theorem Fills.length_headD (hg : g.Fills d) : (g.headD []).length = d.cols := by
  cases g with
  | nil => exact absurd hg.length_eq (Nat.ne_of_lt hg.positive.rows_pos)
  | cons first rest => exact hg.length_row first List.mem_cons_self

section Transpose

variable [Entry α]

/-- The grid whose rows are the columns of another. -/
def transpose (g : Grid α) : Grid α := (List.range (g.headD []).length).map g.column

theorem Fills.transpose (hg : g.Fills d) : g.transpose.Fills ⟨d.cols, d.rows⟩ where
  positive := ⟨hg.positive.cols_pos, hg.positive.rows_pos⟩
  length_eq := by rw [Grid.transpose, List.length_map, List.length_range, hg.length_headD]
  length_row := by
    intro row hrow
    obtain ⟨col, _, rfl⟩ := List.mem_map.mp hrow
    rw [column, List.length_map, hg.length_eq]

theorem Fills.cell?_transpose (hg : g.Fills d) (row col : Nat) :
    g.transpose.cell? row col = g.cell? col row := by
  by_cases hin : row < d.cols ∧ col < d.rows
  · have hr : row < (g.headD []).length := hg.length_headD.symm ▸ hin.1
    have hc : col < g.length := hg.length_eq.symm ▸ hin.2
    rw [hg.cell?_eq_some hin.2 hin.1, cell?, Grid.transpose, List.getElem?_map, List.getElem?_range hr,
      Option.map_some, Option.bind_some, column, List.getElem?_map, List.getElem?_eq_getElem hc,
      Option.map_some, entry, List.getD_eq_getElem g [] hc]
  · have hout : d.cols ≤ row ∨ d.rows ≤ col := by omega
    rw [hg.transpose.cell?_eq_none_iff.mpr hout, hg.cell?_eq_none_iff.mpr hout.symm]

end Transpose

end Grid

end StoredMatrix
