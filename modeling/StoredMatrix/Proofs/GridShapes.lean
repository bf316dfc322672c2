import StoredMatrix.Proofs.CheckedArithmetic
import StoredMatrix.Proofs.RefusedBuffers
import StoredMatrix.Proofs.SquareGrids

/-!
# Shapes of grids

Every grid has dimensions or a first defect, and the two are told apart in the same way by all functions
that ask. A grid is without rows, has a ragged row, or has nothing but empty rows; an empty row before a
longer one is a matter of raggedness. Two grids share dimensions, or are refused for the first defect of
one of them or for the first side in which they differ.
-/

namespace StoredMatrix

namespace Grid

variable {α β : Type} {g : Grid α} {arg : String}

/-! ## Rows of other lengths -/

/-- The least row whose length differs from that of row 0, with both lengths. -/
structure FirstRagged (g : Grid α) (row expected got : Nat) : Prop where
  expected_eq : g[0]?.map List.length = some expected
  got_eq : g[row]?.map List.length = some got
  isLeast : IsLeast {i | ∃ entries, g[i]? = some entries ∧ entries.length ≠ expected} row

theorem firstRaggedRow?_eq_some {first : List α} {rest : Grid α} {row got : Nat} :
    firstRaggedRow? (first :: rest) = some (row, got) ↔ FirstRagged (first :: rest) row first.length got := by
  simp only [firstRaggedRow?, Option.map_eq_some_iff, Prod.exists, Prod.mk.injEq,
    find?_zipIdx_eq_some (p := fun entries : List α => decide (entries.length ≠ first.length)),
    decide_eq_true_eq]
  constructor
  · rintro ⟨entries, _, ⟨hleast, hrow⟩, rfl, rfl⟩
    exact ⟨rfl, congrArg (Option.map List.length) hrow, hleast⟩
  · rintro ⟨_, hgot, hleast⟩
    obtain ⟨entries, hrow, hl⟩ := Option.map_eq_some_iff.mp hgot
    exact ⟨entries, row, ⟨hleast, hrow⟩, rfl, hl⟩

/-! ## The first defect of a grid -/

/-- The causes for which a grid has no dimensions. -/
inductive Defect (g : Grid α) (arg : String) : Error → Prop
  /-- There are no rows. -/
  | noRows : g = [] → Defect g arg (.invalidDimension arg .rows 0)
  /-- A row has another length than row 0. -/
  | ragged {row expected got : Nat} : g.FirstRagged row expected got →
      Defect g arg (.ragged arg row expected got)
  /-- There are rows, and all of them are empty. -/
  | noColumns : g ≠ [] → (∀ row ∈ g, row = []) → Defect g arg (.invalidDimension arg .columns 0)

theorem dims_eq_error {e : Error} : g.dims arg = .error e ↔ g.Defect arg e := by
  cases g with
  | nil =>
      constructor
      · intro he
        cases he
        exact .noRows rfl
      · rintro (_ | hfirst | ⟨hne, _⟩)
        · rfl
        · cases hfirst.expected_eq
        · exact absurd rfl hne
  | cons first rest =>
      simp only [dims, List.head?_cons]
      constructor
      · intro he
        cases hragged : firstRaggedRow? (first :: rest) with
        | some defect =>
            rw [hragged] at he
            cases he
            exact .ragged (firstRaggedRow?_eq_some.mp hragged)
        | none =>
            have heven := firstRaggedRow?_eq_none.mp hragged
            simp only [hragged, bind_eq_error, ensure_eq_error, pure_ne_error, and_false, exists_false,
              or_false, decide_eq_false_iff_not, Decidable.not_not] at he
            obtain ⟨hzero, rfl⟩ := he
            exact .noColumns (List.cons_ne_nil first rest) fun row hrow =>
              List.length_eq_zero_iff.mp ((heven row hrow).trans hzero)
      · rintro (hnil | hfirst | ⟨_, hempty⟩)
        · cases hnil
        · obtain rfl : first.length = _ := Option.some.inj hfirst.expected_eq
          rw [firstRaggedRow?_eq_some.mpr hfirst]
        · obtain rfl : first = [] := hempty first List.mem_cons_self
          have heven := firstRaggedRow?_eq_none.mpr fun row hrow => congrArg List.length (hempty row hrow)
          rw [heven]
          rfl

theorem dims_eq_ragged {row expected got : Nat} :
    g.dims arg = .error (.ragged arg row expected got) ↔ g.FirstRagged row expected got := by
  rw [dims_eq_error]
  constructor
  · rintro (_ | hfirst | _)
    exact hfirst
  · exact .ragged

theorem isRagged_iff : g.isRagged = true ↔ ∃ row expected got, g.FirstRagged row expected got := by
  rw [isRagged, Option.isSome_iff_exists]
  cases g with
  | nil =>
      constructor
      · rintro ⟨_, hragged⟩
        cases hragged
      · rintro ⟨_, _, _, hfirst⟩
        cases hfirst.expected_eq
  | cons first rest =>
      constructor
      · rintro ⟨⟨row, got⟩, hragged⟩
        exact ⟨row, first.length, got, firstRaggedRow?_eq_some.mp hragged⟩
      · rintro ⟨row, _, got, hfirst⟩
        obtain rfl : first.length = _ := Option.some.inj hfirst.expected_eq
        exact ⟨(row, got), firstRaggedRow?_eq_some.mpr hfirst⟩

/-! ## Counts -/

section Counts

/-- The sum of a count over the rows, in machine words. -/
def checkedTotal (count : List α → Nat) (g : Grid α) : Except Fault Nat :=
  g.foldlM (fun total row => Checked.add total (count row)) 0

theorem foldlM_add_eq_ok (count : List α → Nat) (hnil : count [] = 0)
    (happend : ∀ xs ys, count (xs ++ ys) = count xs + count ys) {total n : Nat} (htotal : total < wordLimit) :
    g.foldlM (fun total row => Checked.add total (count row)) total = .ok n ↔
      total + count g.flatten < wordLimit ∧ total + count g.flatten = n := by
  induction g generalizing total with
  | nil => simp [hnil, htotal, pure, Except.pure]
  | cons row g ih =>
      rw [List.foldlM_cons, List.flatten_cons, happend, ← Nat.add_assoc, bind_eq_ok]
      constructor
      · rintro ⟨_, hrow, hrest⟩
        obtain ⟨hlt, rfl⟩ := Checked.add_eq_ok.mp hrow
        exact (ih hlt).mp hrest
      · rintro ⟨hlt, hn⟩
        have hrow : total + count row < wordLimit := by omega
        exact ⟨_, Checked.add_eq_ok.mpr ⟨hrow, rfl⟩, (ih hrow).mpr ⟨hlt, hn⟩⟩

/-- Adding up the lengths of the rows counts the entries, unless there are too many for a word. -/
theorem checkedTotal_length {n : Nat} :
    g.checkedTotal List.length = .ok n ↔ g.elementCount < wordLimit ∧ g.elementCount = n := by
  have hsum := foldlM_add_eq_ok (g := g) (n := n) List.length List.length_nil (fun _ _ => List.length_append)
    (show 0 < wordLimit by decide)
  rwa [Nat.zero_add] at hsum

variable [Entry α]

/-- The number of entries of all rows that are zero. -/
def countZero (g : Grid α) : Nat := g.flatten.countP Entry.isZero

theorem countNonzero_add_countZero (g : Grid α) : g.countNonzero + g.countZero = g.elementCount := by
  rw [Grid.countNonzero, StoredMatrix.countNonzero, countZero, elementCount, Nat.add_comm,
    List.length_eq_countP_add_countP Entry.isZero]
  congr 2
  funext a
  cases ha : Entry.isZero a <;> simp [Entry.isNonzero, ha]

theorem checkedTotal_countNonzero {n : Nat} : g.checkedTotal StoredMatrix.countNonzero = .ok n ↔
    g.countNonzero < wordLimit ∧ g.countNonzero = n := by
  have hsum := foldlM_add_eq_ok (g := g) (n := n) StoredMatrix.countNonzero List.countP_nil
    (fun _ _ => List.countP_append) (show 0 < wordLimit by decide)
  rwa [Nat.zero_add] at hsum

end Counts

/-! ## Two grids -/

section Pairs

variable {other : Grid β} {otherArg : String}

/-- The causes for which two grids share no dimensions. -/
inductive PairDefect (g : Grid α) (arg : String) (other : Grid β) (otherArg : String) : Error → Prop
  /-- The first grid has no dimensions. -/
  | first {e : Error} : g.dims arg = .error e → PairDefect g arg other otherArg e
  /-- The second grid has no dimensions, and the first one has. -/
  | second {d : Dims} {e : Error} : g.dims arg = .ok d → other.dims otherArg = .error e →
      PairDefect g arg other otherArg e
  /-- The grids have different numbers of rows. -/
  | rows {d d' : Dims} : g.dims arg = .ok d → other.dims otherArg = .ok d' → d'.rows ≠ d.rows →
      PairDefect g arg other otherArg (.invalidArgument otherArg (.otherRowCount d'.rows arg d.rows))
  /-- The grids have as many rows and different numbers of columns. -/
  | columns {d d' : Dims} : g.dims arg = .ok d → other.dims otherArg = .ok d' → d'.rows = d.rows →
      d'.cols ≠ d.cols →
      PairDefect g arg other otherArg (.invalidArgument otherArg (.otherColumnCount d'.cols arg d.cols))

theorem pairedDims_eq_error {e : Error} :
    g.pairedDims arg otherArg other = .error e ↔ g.PairDefect arg other otherArg e := by
  simp only [pairedDims, bind_eq_error, ensure_eq_error, ensure_eq_ok, pure_ne_error, and_false, exists_false,
    or_false, decide_eq_false_iff_not, decide_eq_true_eq, exists_const]
  constructor
  · rintro (he | ⟨d, hd, he | ⟨d', hd', ⟨hr, rfl⟩ | ⟨hr, hc, rfl⟩⟩⟩)
    · exact .first he
    · exact .second hd he
    · exact .rows hd hd' hr
    · exact .columns hd hd' hr hc
  · rintro (he | ⟨hd, he⟩ | ⟨hd, hd', hr⟩ | ⟨hd, hd', hr, hc⟩)
    · exact .inl he
    · exact .inr ⟨_, hd, .inl he⟩
    · exact .inr ⟨_, hd, .inr ⟨_, hd', .inl ⟨hr, rfl⟩⟩⟩
    · exact .inr ⟨_, hd, .inr ⟨_, hd', .inr ⟨hr, hc, rfl⟩⟩⟩

end Pairs

/-! ## All questions about a shape -/

variable [Entry α]

/--
A grid has dimensions if it has rows and columns and no row is ragged, and otherwise a first defect. It is
ragged if that defect is a ragged row, and square if its dimensions are equal. All of its entries are
counted, and each of them as zero or as not zero, ragged or not; the counts are the sums over the rows.
Two grids share dimensions if both have them, and are refused in a fixed order otherwise.
-/
theorem shapes_classified (g : Grid α) (arg : String) (other : Grid β) (otherArg : String) :
    (∀ r c, g.dims arg = .ok ⟨r, c⟩ ↔ (1 ≤ r ∧ 1 ≤ c) ∧ g.length = r ∧ ∀ row ∈ g, row.length = c) ∧
    (∀ e, g.dims arg = .error e ↔ g.Defect arg e) ∧
    (g.isRagged = true ↔ ∃ row expected got, g.dims arg = .error (.ragged arg row expected got)) ∧
    (∀ row expected got,
      g.dims arg = .error (.ragged arg row expected got) ↔ g.FirstRagged row expected got) ∧
    (g.isSquare = true ↔ ∃ n, g.dims arg = .ok ⟨n, n⟩) ∧
    (∀ d, g.dims arg = .ok d → g.elementCount = d.rows * d.cols) ∧
    g.countNonzero + g.countZero = g.elementCount ∧
    (∀ n, g.checkedTotal List.length = .ok n ↔ g.elementCount < wordLimit ∧ g.elementCount = n) ∧
    (∀ n, g.checkedTotal StoredMatrix.countNonzero = .ok n ↔
      g.countNonzero < wordLimit ∧ g.countNonzero = n) ∧
    (∀ d, g.pairedDims arg otherArg other = .ok d ↔ g.dims arg = .ok d ∧ other.dims otherArg = .ok d) ∧
    ∀ e, g.pairedDims arg otherArg other = .error e ↔ g.PairDefect arg other otherArg e := by
  refine ⟨fun r c => ?_, fun e => dims_eq_error, ?_, fun row expected got => dims_eq_ragged, ?_,
    fun d hd => elementCount_eq hd, g.countNonzero_add_countZero, fun n => checkedTotal_length,
    fun n => checkedTotal_countNonzero, fun d => pairedDims_eq_ok, fun e => pairedDims_eq_error⟩
  · rw [dims_eq_ok]
    exact ⟨fun ⟨hl, hp, hrow⟩ => ⟨⟨hp.rows_pos, hp.cols_pos⟩, hl, hrow⟩,
      fun ⟨⟨hr, hc⟩, hl, hrow⟩ => ⟨hl, ⟨hr, hc⟩, hrow⟩⟩
  · simp only [isRagged_iff, dims_eq_ragged]
  · simp only [isSquare_iff, dims_eq_ok_iff_fills]

/-- An empty row before a longer one is a ragged grid, empty rows alone are a grid without columns. -/
theorem shapes_classified_samples :
    dims "data" [[], [Binary64.one]] = .error (.ragged "data" 1 0 1) ∧
    isRagged [[], [Binary64.one]] = true ∧
    dims "data" ([[], []] : Grid Binary64) = .error (.invalidDimension "data" .columns 0) ∧
    dims "data" [[Binary64.one, .nan, .zero], [.zero, .one, .zero]] = .ok ⟨2, 3⟩ ∧
    elementCount [[Binary64.one, .nan, .zero], [.zero, .one, .zero]] = 2 * 3 ∧
    isSquare [[Binary64.one, .nan, .zero], [.zero, .one, .zero]] = false ∧
    pairedDims "real" [[Binary64.one, .nan, .zero], [.zero, .one, .zero]] "imag" [[Binary64.one, .one]] =
      .error (.invalidArgument "imag" (.otherRowCount 1 "real" 2)) := by
  obtain ⟨_, _, hragged, hfirst, _⟩ :=
    shapes_classified [[], [Binary64.one]] "data" ([] : Grid Binary64) "imag"
  obtain ⟨_, hdefect, _⟩ := shapes_classified ([[], []] : Grid Binary64) "data" ([] : Grid Binary64) "imag"
  obtain ⟨hdims, _, _, _, hsquare, hcount, _⟩ := shapes_classified
    [[Binary64.one, .nan, .zero], [.zero, .one, .zero]] "data" ([] : Grid Binary64) "imag"
  obtain ⟨_, _, _, _, _, _, _, _, _, _, hpaired⟩ := shapes_classified
    [[Binary64.one, .nan, .zero], [.zero, .one, .zero]] "real" [[Binary64.one, .one]] "imag"
  have hsecond : dims "data" [[], [Binary64.one]] = .error (.ragged "data" 1 0 1) := by
    refine (hfirst 1 0 1).mpr ⟨rfl, rfl, ⟨[.one], rfl, by decide⟩, ?_⟩
    rintro i ⟨entries, he, hne⟩
    cases i with
    | zero => exact absurd (congrArg List.length (Option.some.inj he).symm) hne
    | succ i => exact Nat.le_add_left 1 i
  have hwide := (hdims 2 3).mpr ⟨by decide, rfl, by simp⟩
  have hlow : dims "imag" [[Binary64.one, .one]] = .ok ⟨1, 2⟩ := rfl
  have hempty := (hdefect _).mpr (.noColumns (List.cons_ne_nil [] [[]]) (by simp))
  refine ⟨hsecond, hragged.mpr ⟨1, 0, 1, hsecond⟩, hempty, hwide,
    hcount _ hwide, ?_, (hpaired _).mpr (.rows (d := ⟨2, 3⟩) rfl hlow (by decide))⟩
  rw [Bool.eq_false_iff, ne_eq, hsquare]
  rintro ⟨n, hn⟩
  rw [hwide] at hn
  cases hn

end Grid

end StoredMatrix
