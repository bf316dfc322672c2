import StoredMatrix.Proofs.GridStructures

/-!
# Upper triangles

Removing the lower triangle of a square grid is a projection onto the upper triangular grids: what it
leaves is upper triangular, and is left as it is the second time. The grids that it leaves as they are
have the zero itself below the diagonal, which is more than being upper triangular where a zero may
carry a sign.
-/

namespace StoredMatrix.Grid

/-! ## What is left of a grid -/

variable {α : Type} [Entry α] {g h : Grid α} {n : Nat}

/-- A square grid with the entries of another on and above the diagonal, and zeros below it. -/
structure UpperPart (g h : Grid α) (n : Nat) : Prop where
  fills : h.Fills ⟨n, n⟩
  kept : ∀ row col, row ≤ col → h.cell? row col = g.cell? row col
  zeroed : ∀ row < n, ∀ col < row, h.cell? row col = some Entry.zero

theorem Fills.exists_upperPart (hg : g.Fills ⟨n, n⟩) : ∃ h, g.removeLowerTriangle = .ok h ∧ g.UpperPart h n := by
  refine ⟨_, removeLowerTriangle_eq_ok.mpr ⟨⟨n, hg⟩, rfl⟩, hg.mapEntries _, ?_, ?_⟩
  · intro row col hle
    rw [cell?_mapEntries]
    simp only [if_neg (Nat.not_lt_of_le hle), Option.map_id']
  · intro row hr col hlt
    rw [cell?_mapEntries, hg.cell?_eq_some hr (hlt.trans hr), Option.map_some, if_pos hlt]

namespace UpperPart

variable (hh : g.UpperPart h n)

include hh

theorem eq_zero {row col : Nat} {a : α} (hlt : col < row) (ha : h.cell? row col = some a) :
    a = Entry.zero := by
  have hr := (hh.fills.lt_of_cell? ha).1
  exact Option.some.inj (ha.symm.trans (hh.zeroed row hr col hlt))

theorem has_upperTriangular : h.has .upperTriangular = .ok true := by
  refine hh.fills.has_eq_true.mpr ⟨rfl, fun row col a ha hout => ?_⟩
  rw [hh.eq_zero hout ha, Entry.isZero_zero]

theorem has_lowerTriangular_iff :
    h.has .lowerTriangular = .ok true ↔ g.ZeroWhere fun row col => row < col := by
  refine (hh.fills.has_eq_true.trans (and_iff_right rfl)).trans ⟨fun hzero => ?_, fun hzero => ?_⟩
  · intro row col a ha hlt
    exact hzero row col a ((hh.kept row col (Nat.le_of_lt hlt)).trans ha) hlt
  · intro row col a ha hlt
    exact hzero row col a ((hh.kept row col (Nat.le_of_lt hlt)).symm.trans ha) hlt

theorem eq_self_iff (hg : g.Fills ⟨n, n⟩) :
    h = g ↔ ∀ row col a, col < row → g.cell? row col = some a → a = Entry.zero := by
  constructor
  · rintro rfl row col a hlt ha
    exact hh.eq_zero hlt ha
  · intro hzero
    refine hh.fills.ext hg fun row col => ?_
    rcases Nat.lt_or_ge col row with hlt | hle
    · by_cases hr : row < n
      · have ha := hg.cell?_eq_some hr (hlt.trans hr)
        rw [hh.zeroed row hr col hlt, ha, hzero row col _ hlt ha]
      · have hout : n ≤ row ∨ n ≤ col := .inl (Nat.not_lt.mp hr)
        rw [hh.fills.cell?_eq_none_iff.mpr hout, hg.cell?_eq_none_iff.mpr hout]
    · exact hh.kept row col hle

/-- What is left is left as it is the second time. -/
theorem removeLowerTriangle_eq : h.removeLowerTriangle = .ok h := by
  obtain ⟨h', hh', hupper⟩ := hh.fills.exists_upperPart
  rw [hh', (hupper.eq_self_iff hh.fills).mpr fun row col a => hh.eq_zero]

end UpperPart

theorem removeLowerTriangle_eq_self_iff : g.removeLowerTriangle = .ok g ↔
    (∃ n, g.Fills ⟨n, n⟩) ∧ ∀ row col a, col < row → g.cell? row col = some a → a = Entry.zero := by
  constructor
  · intro hself
    obtain ⟨⟨n, hg⟩, _⟩ := removeLowerTriangle_eq_ok.mp hself
    obtain ⟨h, hh, hupper⟩ := hg.exists_upperPart
    exact ⟨⟨n, hg⟩, (hupper.eq_self_iff hg).mp (Except.ok.inj (hh.symm.trans hself))⟩
  · rintro ⟨⟨n, hg⟩, hzero⟩
    obtain ⟨h, hh, hupper⟩ := hg.exists_upperPart
    rw [hh, (hupper.eq_self_iff hg).mpr hzero]

/-- An integer is zero in one way only. -/
theorem removeLowerTriangle_eq_self_iff_of_int {k : Grid Int} :
    k.removeLowerTriangle = .ok k ↔ k.has .upperTriangular = .ok true := by
  have hzero : ∀ a : Int, Entry.isZero a = true ↔ a = Entry.zero := fun a => decide_eq_true_iff
  rw [removeLowerTriangle_eq_self_iff, has_eq_true_iff (s := .upperTriangular) (fun _ => nofun), isSquare_iff]
  refine and_congr_right fun _ => ?_
  simp only [ZeroWhere, Structure.Excludes, hzero]
  exact ⟨fun h row col a ha hlt => h row col a hlt ha, fun h row col a hlt ha => h row col a ha hlt⟩

/--
Of a square grid the upper part is left, which is upper triangular and is left as it is the second time.
It is the grid itself if nothing but the zero itself stood below the diagonal, which for integers is
being upper triangular, and it is lower triangular too if the grid had zeros above the diagonal.
A grid that is not square is refused.
-/
theorem upper_triangle_projection (g : Grid α) (k : Grid Int) :
    (∀ n, g.Fills ⟨n, n⟩ →
      ∃ h, g.removeLowerTriangle = .ok h ∧ g.UpperPart h n ∧
        h.has .upperTriangular = .ok true ∧ h.require .upperTriangular = .ok h ∧
        h.removeLowerTriangle = .ok h ∧
        (h = g ↔ ∀ row col a, col < row → g.cell? row col = some a → a = Entry.zero) ∧
        (h.has .lowerTriangular = .ok true ↔ g.ZeroWhere fun row col => row < col)) ∧
    (k.removeLowerTriangle = .ok k ↔ k.has .upperTriangular = .ok true) ∧
    ((∀ n, ¬g.Fills ⟨n, n⟩) → ∃ e, g.removeLowerTriangle = .error e ∧ g.RefusedAsNotSquare e) := by
  refine ⟨fun n hg => ?_, removeLowerTriangle_eq_self_iff_of_int, fun hg => ?_⟩
  · obtain ⟨h, hh, hupper⟩ := hg.exists_upperPart
    have htriangular := hupper.has_upperTriangular
    exact ⟨h, hh, hupper, htriangular, require_eq_ok.mpr ⟨htriangular, rfl⟩, hupper.removeLowerTriangle_eq,
      hupper.eq_self_iff hg, hupper.has_lowerTriangular_iff⟩
  · cases hh : g.removeLowerTriangle with
    | error e => exact ⟨e, rfl, removeLowerTriangle_eq_error.mp hh⟩
    | ok h =>
        obtain ⟨⟨n, hfills⟩, _⟩ := removeLowerTriangle_eq_ok.mp hh
        exact absurd hfills (hg n)

/-- A negative zero below the diagonal is upper triangular, but its sign is lost. -/
theorem upper_triangle_projection_samples :
    Fills [[Binary64.one, .nan], [⟨0x8000000000000000⟩, .one]] ⟨2, 2⟩ ∧
    (∃ h, removeLowerTriangle [[Binary64.one, .nan], [⟨0x8000000000000000⟩, .one]] = .ok h ∧
      h.cell? 0 1 = some .nan ∧ h.cell? 1 0 = some .zero ∧ h.removeLowerTriangle = .ok h ∧
      h ≠ [[.one, .nan], [⟨0x8000000000000000⟩, .one]]) ∧
    removeLowerTriangle [[(1 : Int), 2], [0, 3]] = .ok [[1, 2], [0, 3]] ∧
    (∀ n, ¬Fills [[Binary64.one, .nan]] ⟨n, n⟩) ∧
    removeLowerTriangle [[Binary64.one, .nan]] = .error (.invalidArgument "matrix" (.notSquare ⟨1, 2⟩)) := by
  have hg : Fills [[Binary64.one, .nan], [⟨0x8000000000000000⟩, .one]] ⟨2, 2⟩ := squareOrder_eq_ok.mp rfl
  have hwide : ∀ n, ¬Fills [[Binary64.one, .nan]] ⟨n, n⟩ := fun n h =>
    absurd (h.length_eq.trans (h.length_row _ List.mem_cons_self).symm) (by decide)
  obtain ⟨hsquare, hint, _⟩ := upper_triangle_projection
    [[Binary64.one, .nan], [⟨0x8000000000000000⟩, .one]] [[1, 2], [0, 3]]
  obtain ⟨h, hh, hupper, _, _, hagain, hself, _⟩ := hsquare 2 hg
  obtain ⟨_, _, hrefused⟩ := upper_triangle_projection [[Binary64.one, .nan]] []
  obtain ⟨e, he, hcause⟩ := hrefused hwide
  refine ⟨hg, ⟨h, hh, hupper.kept 0 1 (by decide), hupper.zeroed 1 (by decide) 0 (by decide), hagain, ?_⟩,
    hint.mpr (by decide +kernel), hwide, ?_⟩
  · rw [ne_eq, hself]
    intro hzero
    exact absurd (hzero 1 0 _ (by decide) rfl) (by decide)
  · cases hcause with
    | defect hdims => cases hdims
    | sides hdims _ =>
        cases hdims
        exact he

end StoredMatrix.Grid
