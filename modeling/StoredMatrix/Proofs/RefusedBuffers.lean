import Mathlib.Data.List.NodupEquivFin
import Mathlib.Order.WellFounded
import StoredMatrix.Proofs.Buffers

/-!
# Refused buffers

Buffers for a sparse matrix are checked from the outside in, and refused for the first check that
they fail. A check that looks for a place at fault names the least one. Buffers that fail no check
are those of a matrix.
-/

namespace StoredMatrix

/-! ## Sequences of checks -/

section Sequence

variable {ε β : Type}

/-- A sequence of checks fails with the error of the least check that fails. -/
theorem forM_eq_error_iff {f : β → Except ε Unit} {place : β → Nat} {checks : List β} {e : ε}
    (hordered : checks.Pairwise fun c c' => place c < place c') :
    checks.forM f = .error e ↔
      ∃ c ∈ checks, f c = .error e ∧ ∀ c' ∈ checks, place c' < place c → f c' = .ok () := by
  induction checks with
  | nil =>
      simp only [List.not_mem_nil, false_and, exists_false, iff_false]
      exact nofun
  | cons first checks ih =>
      obtain ⟨hfirst, hordered⟩ := List.pairwise_cons.mp hordered
      rw [show (first :: checks).forM f = (f first >>= fun _ => checks.forM f) from rfl, bind_eq_error,
        ih hordered]
      constructor
      · rintro (hfail | ⟨_, hpass, c, hc, hfail, hearlier⟩)
        · refine ⟨first, List.mem_cons_self, hfail, fun c' hc' hlt => ?_⟩
          -- no check stands before the first one
          rcases List.mem_cons.mp hc' with rfl | hc'
          · exact absurd hlt (Nat.lt_irrefl _)
          · exact absurd hlt (Nat.lt_asymm (hfirst c' hc'))
        · refine ⟨c, List.mem_cons_of_mem first hc, hfail, fun c' hc' hlt => ?_⟩
          rcases List.mem_cons.mp hc' with rfl | hc'
          · exact hpass
          · exact hearlier c' hc' hlt
      · rintro ⟨c, hc, hfail, hearlier⟩
        rcases List.mem_cons.mp hc with rfl | hc
        · exact .inl hfail
        · refine .inr ⟨(), hearlier first List.mem_cons_self (hfirst c hc), c, hc, hfail, ?_⟩
          exact fun c' hc' => hearlier c' (List.mem_cons_of_mem first hc')

end Sequence

@[simp] theorem Sparse.refuse_eq_error {β : Type} {witness : Option β} {error : β → Error} {e : Error} :
    refuse witness error = .error e ↔ ∃ w, witness = some w ∧ error w = e := by
  cases witness with
  | none => exact ⟨nofun, nofun⟩
  | some w => simp [refuse]

/-! ## Least places -/

section Least

variable {β : Type}

theorem find?_zipIdx_eq_some {p : β → Bool} {xs : List β} {x : β} {i : Nat} :
    (xs.zipIdx.find? fun y => p y.1) = some (x, i) ↔
      IsLeast {j | ∃ y, xs[j]? = some y ∧ p y = true} i ∧ xs[i]? = some x := by
  simp only [List.find?_eq_some_iff_getElem, List.length_zipIdx, List.getElem_zipIdx, Nat.zero_add,
    Prod.mk.injEq, Bool.not_eq_true']
  constructor
  · rintro ⟨hp, _, hi, ⟨rfl, rfl⟩, hleast⟩
    refine ⟨⟨⟨_, List.getElem?_eq_getElem hi, hp⟩, ?_⟩, List.getElem?_eq_getElem hi⟩
    rintro j ⟨y, hy, hpy⟩
    refine Nat.le_of_not_lt fun hj => ?_
    obtain ⟨_, rfl⟩ := List.getElem?_eq_some_iff.mp hy
    rw [hleast j hj] at hpy
    cases hpy
  · rintro ⟨⟨⟨y, hy, hpy⟩, hleast⟩, hx⟩
    obtain rfl := Option.some.inj (hy.symm.trans hx)
    obtain ⟨hi, rfl⟩ := List.getElem?_eq_some_iff.mp hy
    refine ⟨hpy, i, hi, ⟨rfl, rfl⟩, fun j hj => ?_⟩
    rw [Bool.eq_false_iff]
    exact fun hpj => Nat.not_le_of_lt hj (hleast ⟨_, List.getElem?_eq_getElem (by omega), hpj⟩)

theorem findSome?_range_eq_some {f : Nat → Option β} {n : Nat} {b : β} :
    (List.range n).findSome? f = some b ↔ ∃ a < n, f a = some b ∧ ∀ a' < a, f a' = none := by
  induction n with
  | zero => simp
  | succ n ih =>
      simp only [List.range_succ, List.findSome?_append, Option.or_eq_some_iff, ih,
        List.findSome?_eq_none_iff, List.mem_range, List.findSome?_singleton]
      constructor
      · rintro (⟨a, ha, hfa⟩ | ⟨hnone, hn⟩)
        · exact ⟨a, by omega, hfa⟩
        · exact ⟨n, by omega, hn, hnone⟩
      · rintro ⟨a, ha, hfa, hnone⟩
        rcases Nat.lt_or_eq_of_le (Nat.le_of_lt_succ ha) with hlt | rfl
        · exact .inl ⟨a, hlt, hfa, hnone⟩
        · exact .inr ⟨hnone, hfa⟩

theorem one_lt_count_iff [DecidableEq β] {xs : List β} {x : β} :
    1 < xs.count x ↔ ∃ i j : Nat, i < j ∧ xs[i]? = some x ∧ xs[j]? = some x := by
  rw [← Nat.succ_le_iff, ← List.duplicate_iff_two_le_count, List.duplicate_iff_exists_distinct_get]
  constructor
  · rintro ⟨i, j, hij, hi, hj⟩
    exact ⟨i, j, hij, by rw [hi]; exact List.getElem?_eq_getElem _,
      by rw [hj]; exact List.getElem?_eq_getElem _⟩
  · rintro ⟨i, j, hij, hi, hj⟩
    obtain ⟨hi, hx⟩ := List.getElem?_eq_some_iff.mp hi
    obtain ⟨hj, hx'⟩ := List.getElem?_eq_some_iff.mp hj
    exact ⟨⟨i, hi⟩, ⟨j, hj⟩, hij, hx.symm, hx'.symm⟩

theorem getElem?_columnSlice {colPtrs : List Int} {buffer : List β} {col i : Nat} {b : β} :
    (columnSlice colPtrs buffer col)[i]? = some b ↔
      columnStart colPtrs col + i < columnStart colPtrs (col + 1) ∧
        buffer[columnStart colPtrs col + i]? = some b := by
  simp only [columnSlice, List.getElem?_take, List.getElem?_drop, Option.ite_none_right_eq_some]
  exact and_congr_left fun _ => by omega

theorem getElem?_eq_getLastD {xs : List β} {n : Nat} (hl : xs.length = n + 1) (default : β) :
    xs[n]? = some (xs.getLastD default) := by
  rw [List.getLastD_eq_getLast?, List.getLast?_eq_getElem?, hl, Nat.add_sub_cancel,
    List.getElem?_eq_getElem (by omega), Option.getD_some]

theorem Sparse.leastRepeated?_eq_some_iff {ns : List Int} {n : Int} :
    leastRepeated? ns = some n ↔ IsLeast {n | 1 < ns.count n} n := by
  have hmem : ∀ n, n ∈ ns.filter (fun n => 1 < ns.count n) ↔ 1 < ns.count n := fun n => by
    rw [List.mem_filter, decide_eq_true_eq, and_iff_right_iff_imp]
    exact fun h => List.count_pos_iff.mp (Nat.zero_lt_of_lt h)
  simp only [leastRepeated?, List.min?_eq_some_iff, hmem]
  rfl

end Least

/-! ## What can be wrong with buffers -/

/-- Raw input for a sparse matrix. -/
structure Buffers (α : Type) where
  colPtrs : List Int
  rowIndices : List Int
  values : List α
  dims : Dims

/-- The checks on buffers. -/
inductive BufferCheck
  | rows
  | columns
  | positions
  | pointerCount
  | rowCount
  | firstPointer
  | ascent
  | lastPointer
  | rowRange
  | repetition
  | nonzero
deriving DecidableEq

/-- The order in which the checks are made. -/
def BufferCheck.order : List BufferCheck :=
  [rows, columns, positions, pointerCount, rowCount, firstPointer, ascent, lastPointer, rowRange,
    repetition, nonzero]

/-- The place of a check in the order. -/
def BufferCheck.place (c : BufferCheck) : Nat := order.idxOf c

theorem BufferCheck.order_pairwise : order.Pairwise fun c c' => c.place < c'.place := by decide

theorem BufferCheck.mem_order (c : BufferCheck) : c ∈ order := by
  cases c <;> decide

namespace Buffers

variable {α : Type}

/-- At the position a pointer is below the one before it, or below zero if it is the first. -/
def DescendsAt (b : Buffers α) (position : Nat) : Prop :=
  ∃ previous pointer, (0 :: b.colPtrs)[position]? = some previous ∧
    b.colPtrs[position]? = some pointer ∧ pointer < previous

/-- At the position stands a row index that is no row. -/
def StraysAt (b : Buffers α) (position : Nat) : Prop :=
  ∃ row, b.rowIndices[position]? = some row ∧ (row < 0 ∨ (b.dims.rows : Int) ≤ row)

/-- Two positions of the column hold the same row. -/
def Repeats (b : Buffers α) (col : Nat) (row : Int) : Prop :=
  ∃ i j, columnStart b.colPtrs col ≤ i ∧ i < j ∧ j < columnStart b.colPtrs (col + 1) ∧
    b.rowIndices[i]? = some row ∧ b.rowIndices[j]? = some row

/-- A check finds something wrong, and reports it with the error. -/
def Defect [Element α] (b : Buffers α) : BufferCheck → Error → Prop
  | .rows, e => b.dims.rows = 0 ∧ e = .invalidDimension "dims" .rows 0
  | .columns, e => b.dims.cols = 0 ∧ e = .invalidDimension "dims" .columns 0
  | .positions, e => wordLimit ≤ b.dims.count ∧ e = .invalidArgument "dims" (.tooManyPositions b.dims)
  | .pointerCount, e => b.colPtrs.length ≠ b.dims.cols + 1 ∧
      e = .lengthMismatch "col_ptrs" (min (b.dims.cols + 1) (wordLimit - 1)) b.colPtrs.length
  | .rowCount, e => b.rowIndices.length ≠ b.values.length ∧
      e = .lengthMismatch "row_indices" b.values.length b.rowIndices.length
  | .firstPointer, e => ∃ pointer, b.colPtrs[0]? = some pointer ∧ 0 < pointer ∧
      e = .invalidArgument "col_ptrs" (.firstPointer pointer)
  | .ascent, e => ∃ position pointer, IsLeast {i | b.DescendsAt i} position ∧
      b.colPtrs[position]? = some pointer ∧ e = .nonAscending "col_ptrs" position pointer
  | .lastPointer, e => ∃ pointer, b.colPtrs[b.dims.cols]? = some pointer ∧ pointer ≠ b.values.length ∧
      e = .invalidArgument "col_ptrs" (.lastPointer b.values.length pointer)
  | .rowRange, e => ∃ position row, IsLeast {i | b.StraysAt i} position ∧
      b.rowIndices[position]? = some row ∧ e = .indexOutOfBounds "row_indices" position row b.dims.rows
  | .repetition, e => ∃ row col, IsLeast {c | c < b.dims.cols ∧ ∃ r, b.Repeats c r} col ∧
      IsLeast {r | b.Repeats col r} row ∧ e = .invalidArgument "row_indices" (.repeatedRow row col)
  | .nonzero, e => (∀ a ∈ b.values, Entry.isZero a = true) ∧ e = .allZero "values"

/-! ## The least place at fault -/

variable {b : Buffers α} {position col : Nat} {pointer row : Int}

theorem firstDescent?_eq_some : Sparse.firstDescent? b.colPtrs = some (position, pointer) ↔
    IsLeast {i | b.DescendsAt i} position ∧ b.colPtrs[position]? = some pointer := by
  simp only [Sparse.firstDescent?, Option.map_eq_some_iff, Prod.exists, Prod.mk.injEq, and_assoc,
    find?_zipIdx_eq_some (p := fun pair : Int × Int => decide (pair.2 < pair.1)), DescendsAt,
    List.getElem?_zip_eq_some, decide_eq_true_eq]
  constructor
  · rintro ⟨previous, _, _, hleast, _, hpointer, rfl, rfl⟩
    exact ⟨hleast, hpointer⟩
  · rintro ⟨hleast, hpointer⟩
    obtain ⟨previous, _, hprevious, _⟩ := hleast.1
    exact ⟨previous, pointer, position, hleast, hprevious, hpointer, rfl, rfl⟩

theorem firstStrayRow?_eq_some :
    Sparse.firstStrayRow? b.dims.rows b.rowIndices = some (position, row) ↔
      IsLeast {i | b.StraysAt i} position ∧ b.rowIndices[position]? = some row := by
  simp only [Sparse.firstStrayRow?, Option.map_eq_some_iff, Prod.exists, Prod.mk.injEq,
    find?_zipIdx_eq_some (p := fun row => decide (row < 0) || decide ((b.dims.rows : Int) ≤ row)),
    Bool.or_eq_true, decide_eq_true_eq, StraysAt]
  constructor
  · rintro ⟨_, _, h, rfl, rfl⟩
    exact h
  · exact fun h => ⟨_, _, h, rfl, rfl⟩

theorem one_lt_count_columnSlice :
    1 < (columnSlice b.colPtrs b.rowIndices col).count row ↔ b.Repeats col row := by
  simp only [one_lt_count_iff, getElem?_columnSlice, Repeats]
  constructor
  · rintro ⟨i, j, hij, ⟨_, hi⟩, hstop, hj⟩
    exact ⟨_, _, Nat.le_add_right _ i, Nat.add_lt_add_left hij _, hstop, hi, hj⟩
  · rintro ⟨i, j, hstart, hij, hstop, hi, hj⟩
    refine ⟨i - columnStart b.colPtrs col, j - columnStart b.colPtrs col, by omega, ?_, ?_⟩
    · rw [Nat.add_sub_cancel' hstart]
      exact ⟨by omega, hi⟩
    · rw [Nat.add_sub_cancel' (by omega)]
      exact ⟨hstop, hj⟩

theorem Repeats.mem_columnSlice (h : b.Repeats col row) :
    row ∈ columnSlice b.colPtrs b.rowIndices col :=
  List.count_pos_iff.mp (Nat.zero_lt_of_lt (one_lt_count_columnSlice.mpr h))

theorem leastRepeated?_eq_some :
    Sparse.leastRepeated? (columnSlice b.colPtrs b.rowIndices col) = some row ↔
      IsLeast {r | b.Repeats col r} row := by
  simp only [Sparse.leastRepeated?_eq_some_iff, one_lt_count_columnSlice]

theorem leastRepeated?_eq_none :
    Sparse.leastRepeated? (columnSlice b.colPtrs b.rowIndices col) = none ↔ ¬∃ r, b.Repeats col r := by
  simp only [Sparse.leastRepeated?, List.min?_eq_none_iff, List.filter_eq_nil_iff, decide_eq_true_eq,
    one_lt_count_columnSlice, not_exists]
  exact ⟨fun h r hr => h r hr.mem_columnSlice hr, fun h r _ => h r⟩

theorem firstRepeatedRow?_eq_some :
    Sparse.firstRepeatedRow? b.dims.cols b.colPtrs b.rowIndices = some (row, col) ↔
      IsLeast {c | c < b.dims.cols ∧ ∃ r, b.Repeats c r} col ∧ IsLeast {r | b.Repeats col r} row := by
  simp only [Sparse.firstRepeatedRow?, findSome?_range_eq_some, Option.map_eq_some_iff,
    Option.map_eq_none_iff, leastRepeated?_eq_some, leastRepeated?_eq_none, Prod.mk.injEq]
  constructor
  · rintro ⟨_, hc, ⟨_, hrow, rfl, rfl⟩, hnone⟩
    refine ⟨⟨⟨hc, _, hrow.1⟩, ?_⟩, hrow⟩
    rintro c ⟨_, hrepeats⟩
    exact Nat.le_of_not_lt fun hlt => hnone c hlt hrepeats
  · rintro ⟨⟨⟨hc, _⟩, hleast⟩, hrow⟩
    refine ⟨col, hc, ⟨row, hrow, rfl, rfl⟩, fun c hlt hrepeats => ?_⟩
    exact Nat.not_le_of_lt hlt (hleast ⟨Nat.lt_trans hlt hc, hrepeats⟩)

/-! ## Each check on its own -/

variable [Element α]

/-- One check. -/
def check (b : Buffers α) : BufferCheck → Except Error Unit
  | .rows => ensure (b.dims.rows ≠ 0) (.invalidDimension "dims" .rows 0)
  | .columns => ensure (b.dims.cols ≠ 0) (.invalidDimension "dims" .columns 0)
  | .positions => ensure (b.dims.count < wordLimit) (.invalidArgument "dims" (.tooManyPositions b.dims))
  | .pointerCount => ensure (b.colPtrs.length = b.dims.cols + 1)
      (.lengthMismatch "col_ptrs" (cappedSize (b.dims.cols + 1)) b.colPtrs.length)
  | .rowCount => ensure (b.rowIndices.length = b.values.length)
      (.lengthMismatch "row_indices" b.values.length b.rowIndices.length)
  | .firstPointer => ensure (b.colPtrs.headD 0 ≤ 0)
      (.invalidArgument "col_ptrs" (.firstPointer (b.colPtrs.headD 0)))
  | .ascent => Sparse.refuse (Sparse.firstDescent? b.colPtrs) fun (position, pointer) =>
      .nonAscending "col_ptrs" position pointer
  | .lastPointer => ensure (b.colPtrs.getLastD 0 = b.values.length)
      (.invalidArgument "col_ptrs" (.lastPointer b.values.length (b.colPtrs.getLastD 0)))
  | .rowRange => Sparse.refuse (Sparse.firstStrayRow? b.dims.rows b.rowIndices) fun (position, row) =>
      .indexOutOfBounds "row_indices" position row b.dims.rows
  | .repetition => Sparse.refuse (Sparse.firstRepeatedRow? b.dims.cols b.colPtrs b.rowIndices)
      fun (row, col) => .invalidArgument "row_indices" (.repeatedRow row col)
  | .nonzero => ensure (countNonzero b.values ≠ 0) (.allZero "values")

/-- The matrix with the given buffers. -/
def matrix (b : Buffers α) : Sparse α where
  dims := b.dims
  colPtrs := b.colPtrs
  rowIndices := b.rowIndices
  values := b.values
  maxColEntries := largest (columnWidths b.colPtrs)

/-- The matrix that is built, unless a check fails. -/
def build (b : Buffers α) : Except Error (Sparse α) :=
  Sparse.ofBuffers b.colPtrs b.rowIndices b.values b.dims

theorem build_eq (b : Buffers α) :
    b.build = BufferCheck.order.forM b.check >>= fun _ => pure b.matrix := by
  simp only [build, Sparse.ofBuffers, Dims.checkedCount, BufferCheck.order, List.forM, check, bind_assoc,
    pure_bind]
  rfl

/-- A check fails where there is a defect. The last pointer is looked for where it has to be. -/
theorem check_eq_error {c : BufferCheck} {e : Error}
    (hlength : c = .lastPointer → b.colPtrs.length = b.dims.cols + 1) :
    b.check c = .error e ↔ b.Defect c e := by
  cases c with
  | rows => simp [check, Defect, eq_comm (a := e)]
  | columns => simp [check, Defect, eq_comm (a := e)]
  | positions => simp [check, Defect, eq_comm (a := e)]
  | pointerCount => simp [check, Defect, cappedSize, eq_comm (a := e)]
  | rowCount => simp [check, Defect, eq_comm (a := e)]
  | firstPointer => cases hptrs : b.colPtrs <;> simp [check, Defect, hptrs, eq_comm (a := e)]
  | ascent => simp [check, Defect, firstDescent?_eq_some, eq_comm (a := e), and_assoc]
  | lastPointer =>
      have hlast := getElem?_eq_getLastD (hlength rfl) 0
      simp [check, Defect, hlast, eq_comm (a := e)]
  | rowRange => simp [check, Defect, firstStrayRow?_eq_some, eq_comm (a := e), and_assoc]
  | repetition => simp [check, Defect, firstRepeatedRow?_eq_some, eq_comm (a := e), and_assoc]
  | nonzero => simp [check, Defect, countNonzero, Entry.isNonzero, eq_comm (a := e)]

theorem check_eq_ok {c : BufferCheck}
    (hlength : c = .lastPointer → b.colPtrs.length = b.dims.cols + 1) :
    b.check c = .ok () ↔ ∀ e, ¬b.Defect c e := by
  simp only [← check_eq_error hlength]
  cases b.check c with
  | error e => exact ⟨nofun, fun h => absurd rfl (h e)⟩
  | ok u => exact ⟨fun _ => nofun, fun _ => rfl⟩

/-- That no earlier check fails is that none of them has a defect to report. -/
theorem forall_check_eq_ok {place : Nat} :
    (∀ c : BufferCheck, c.place < place → b.check c = .ok ()) ↔
      ∀ c : BufferCheck, c.place < place → ∀ e, ¬b.Defect c e := by
  have hbefore : BufferCheck.pointerCount.place < BufferCheck.lastPointer.place := by decide
  have hlength : b.check .pointerCount = .ok () ↔ b.colPtrs.length = b.dims.cols + 1 := by
    simp [check]
  constructor
  · intro h c hc
    refine (check_eq_ok ?_).mp (h c hc)
    rintro rfl
    exact hlength.mp (h .pointerCount (Nat.lt_trans hbefore hc))
  · intro h c hc
    refine (check_eq_ok ?_).mpr (h c hc)
    rintro rfl
    exact hlength.mp ((check_eq_ok (c := .pointerCount) nofun).mpr (h _ (Nat.lt_trans hbefore hc)))

/-! ## The first defect -/

theorem build_eq_error_iff {e : Error} : b.build = .error e ↔
    ∃ c, b.Defect c e ∧ ∀ c' : BufferCheck, c'.place < c.place → ∀ e', ¬b.Defect c' e' := by
  simp only [build_eq, bind_eq_error, pure_ne_error, and_false, exists_false, or_false,
    forM_eq_error_iff BufferCheck.order_pairwise, BufferCheck.mem_order, true_and, forall_const,
    forall_check_eq_ok]
  refine exists_congr fun c => and_congr_left fun hearlier => check_eq_error ?_
  rintro rfl
  by_contra hne
  exact hearlier .pointerCount (by decide) _ ⟨hne, rfl⟩

/-- Among the checks that have a defect to report there is a first one. -/
theorem exists_first_defect {c : BufferCheck} {e : Error} (h : b.Defect c e) :
    ∃ e', b.build = .error e' := by
  obtain ⟨first, ⟨e', hfirst⟩, hleast⟩ :=
    (measure BufferCheck.place).wf.has_min {c | ∃ e, b.Defect c e} ⟨c, e, h⟩
  exact ⟨e', build_eq_error_iff.mpr ⟨first, hfirst, fun c' hlt e'' h' => hleast c' ⟨e'', h'⟩ hlt⟩⟩

theorem exists_build_eq_ok_iff : (∃ m, b.build = .ok m) ↔ ∀ c e, ¬b.Defect c e := by
  constructor
  · rintro ⟨m, hm⟩ c e h
    obtain ⟨e', he⟩ := exists_first_defect h
    rw [hm] at he
    cases he
  · intro h
    cases hbuild : b.build with
    | ok m => exact ⟨m, rfl⟩
    | error e =>
        obtain ⟨c, hc, _⟩ := build_eq_error_iff.mp hbuild
        exact absurd hc (h c e)

/--
Buffers are refused with the error of the first check that has a defect to report. Where no check
has one, they are accepted, and are the buffers of the well-formed matrix that is built.
-/
theorem ofBuffers_first_defect (b : Buffers α) :
    (∀ e, Sparse.ofBuffers b.colPtrs b.rowIndices b.values b.dims = .error e ↔
      ∃ c, b.Defect c e ∧ ∀ c' : BufferCheck, c'.place < c.place → ∀ e', ¬b.Defect c' e') ∧
    ((∃ m, Sparse.ofBuffers b.colPtrs b.rowIndices b.values b.dims = .ok m) ↔ ∀ c e, ¬b.Defect c e) ∧
    ∀ m, Sparse.ofBuffers b.colPtrs b.rowIndices b.values b.dims = .ok m ↔
      m.WellFormed ∧ b.dims.count < wordLimit ∧ m.dims = b.dims ∧ m.colPtrs = b.colPtrs ∧
        m.rowIndices = b.rowIndices ∧ m.values = b.values :=
  ⟨fun _ => build_eq_error_iff, exists_build_eq_ok_iff, fun _ => Sparse.ofBuffers_eq_ok⟩

/-- Both pointers at fault and both rows at fault: the first descent is what is reported. -/
example : Sparse.ofBuffers [0, 2, 1, 0] [5, -1] [Binary64.zero, .zero] ⟨2, 3⟩ =
    .error (.nonAscending "col_ptrs" 2 1) := by
  decide +kernel

end Buffers

end StoredMatrix
