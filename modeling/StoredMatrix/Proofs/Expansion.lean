import Mathlib.Data.List.Nodup
import StoredMatrix.Proofs.StoredEntries

/-!
# Spreading out

Spread out to the dense shape, a matrix has the same entry at every position. Different positions
have different offsets, so no two stored entries are written to the same place of the buffer, and
the order of the writes does not matter.
-/

namespace StoredMatrix

variable {α : Type}

/-! ## Offsets -/

namespace Dims

variable {d : Dims}

theorem contains_iff {row col : Nat} :
    d.contains row col = true ↔ row < d.rows ∧ col < d.cols := by
  rw [contains, Bool.and_eq_true, decide_eq_true_eq, decide_eq_true_eq]

theorem offset_lt {row col : Nat} (hr : row < d.rows) (hc : col < d.cols) :
    d.offset row col < d.count := by
  have hle : (col + 1) * d.rows ≤ d.cols * d.rows := Nat.mul_le_mul_right _ hc
  rw [Nat.succ_mul] at hle
  rw [offset, count, Nat.mul_comm d.rows]
  omega

theorem offset_inj {row col row' col' : Nat} (hr : row < d.rows) (hr' : row' < d.rows) :
    d.offset row col = d.offset row' col' ↔ row = row' ∧ col = col' := by
  constructor
  · intro h
    rw [offset, offset] at h
    have hmod := congrArg (· % d.rows) h
    have hdiv := congrArg (· / d.rows) h
    simp only [Nat.mul_add_mod_of_lt hr, Nat.mul_add_mod_of_lt hr'] at hmod
    have hpos : 0 < d.rows := by omega
    simp only [Nat.mul_comm _ d.rows, Nat.mul_add_div hpos, Nat.div_eq_of_lt hr,
      Nat.div_eq_of_lt hr', Nat.add_zero] at hdiv
    exact ⟨hmod, hdiv⟩
  · rintro ⟨rfl, rfl⟩
    rfl

theorem diagonalOffset_eq (k : Nat) : d.diagonalOffset k = d.offset k k := Nat.mul_succ k d.rows

theorem exists_offset_eq {i : Nat} (h : i < d.count) :
    ∃ row < d.rows, ∃ col < d.cols, d.offset row col = i := by
  rw [count, Nat.mul_comm] at h
  have hpos : 0 < d.rows := by
    rcases Nat.eq_zero_or_pos d.rows with h0 | h0
    · rw [h0] at h
      exact absurd h (Nat.not_lt_zero i)
    · exact h0
  exact ⟨i % d.rows, Nat.mod_lt i hpos, i / d.rows, Nat.div_lt_of_lt_mul (Nat.mul_comm _ _ ▸ h),
    Nat.div_add_mod' i d.rows⟩

end Dims

/-! ## Writing into a buffer -/

namespace Dense

@[simp] theorem length_write (buffer : List α) (entries : List (Nat × α)) :
    (write buffer entries).length = buffer.length := by
  induction entries generalizing buffer with
  | nil => rfl
  | cons entry entries ih =>
      rw [write, List.foldl_cons, ← write, ih, List.length_set]

theorem getElem?_write_of_not_mem {buffer : List α} {entries : List (Nat × α)} {i : Nat}
    (h : i ∉ entries.map Prod.fst) : (write buffer entries)[i]? = buffer[i]? := by
  induction entries generalizing buffer with
  | nil => rfl
  | cons entry entries ih =>
      rw [List.map_cons, List.mem_cons, not_or] at h
      rw [write, List.foldl_cons, ← write, ih h.2, List.getElem?_set_ne (Ne.symm h.1)]

/-- With no offset written twice, the order of the writes does not matter. -/
theorem getElem?_write_of_mem {buffer : List α} {entries : List (Nat × α)} {i : Nat} {a : α}
    (hn : (entries.map Prod.fst).Nodup) (hi : i < buffer.length) (h : (i, a) ∈ entries) :
    (write buffer entries)[i]? = some a := by
  induction entries generalizing buffer with
  | nil => cases h
  | cons entry entries ih =>
      obtain ⟨hnot, hn⟩ := List.nodup_cons.mp hn
      rw [write, List.foldl_cons, ← write]
      rcases List.mem_cons.mp h with rfl | hmem
      · rw [getElem?_write_of_not_mem hnot, List.getElem?_set_self hi]
      · exact ih hn (by rwa [List.length_set]) hmem

theorem get?_eq_getElem? {m : Dense α} {row col : Nat} (hr : row < m.dims.rows)
    (hc : col < m.dims.cols) : m.get? row col = m.data[m.dims.offset row col]? := by
  rw [get?, if_pos (Dims.contains_iff.mpr ⟨hr, hc⟩)]

theorem get?_eq_none {m : Dense α} {row col : Nat} (h : m.dims.contains row col = false) :
    m.get? row col = none := by
  rw [get?, h]
  rfl

/-- Dense matrices are determined by their entries. -/
theorem WellFormed.ext {m n : Dense α} (h : m.WellFormed) (h' : n.WellFormed)
    (hd : m.dims = n.dims)
    (he : ∀ row < m.dims.rows, ∀ col < m.dims.cols, m.get? row col = n.get? row col) : m = n := by
  have hdata : m.data = n.data := by
    apply List.ext_getElem?
    intro i
    rcases Nat.lt_or_ge i m.dims.count with hi | hi
    · obtain ⟨row, hr, col, hc, rfl⟩ := Dims.exists_offset_eq hi
      have := he row hr col hc
      rwa [get?_eq_getElem? hr hc, get?_eq_getElem? (hd ▸ hr) (hd ▸ hc), ← hd] at this
    · rw [List.getElem?_eq_none (h.length_data ▸ hi), List.getElem?_eq_none (h'.length_data ▸ hd ▸ hi)]
  cases m
  cases n
  cases hd
  cases hdata
  rfl

variable [Element α]

@[simp] theorem length_zeroBuffer (d : Dims) : (zeroBuffer (α := α) d).length = d.count :=
  List.length_replicate

theorem getElem?_zeroBuffer {d : Dims} {i : Nat} (hi : i < d.count) :
    (zeroBuffer (α := α) d)[i]? = some Entry.zero := by
  rw [zeroBuffer, List.getElem?_replicate, if_pos hi]

theorem WellFormed.getElem?_offset {m : Dense α} (h : m.WellFormed) {row col : Nat}
    (hr : row < m.dims.rows) (hc : col < m.dims.cols) :
    m.data[m.dims.offset row col]? = some (m.entry row col) := by
  have hi : m.dims.offset row col < m.data.length := h.length_data ▸ Dims.offset_lt hr hc
  rw [entry, List.getD_eq_getElem?_getD, List.getElem?_eq_getElem hi, Option.getD_some]

theorem WellFormed.get?_eq_some {m : Dense α} (h : m.WellFormed) {row col : Nat}
    (hr : row < m.dims.rows) (hc : col < m.dims.cols) : m.get? row col = some (m.entry row col) := by
  rw [get?_eq_getElem? hr hc, h.getElem?_offset hr hc]

theorem get?_write {d : Dims} {entries : List (Nat × α)} (hn : (entries.map Prod.fst).Nodup)
    {row col : Nat} (hr : row < d.rows) (hc : col < d.cols) :
    (∀ a, (d.offset row col, a) ∈ entries →
      get? ⟨d, write (zeroBuffer d) entries⟩ row col = some a) ∧
    (d.offset row col ∉ entries.map Prod.fst →
      get? ⟨d, write (zeroBuffer d) entries⟩ row col = some Entry.zero) := by
  have hi := Dims.offset_lt hr hc
  refine ⟨fun a hmem => ?_, fun hnot => ?_⟩
  · rw [get?_eq_getElem? hr hc]
    exact getElem?_write_of_mem hn (by rwa [length_zeroBuffer]) hmem
  · rw [get?_eq_getElem? hr hc, getElem?_write_of_not_mem hnot]
    exact getElem?_zeroBuffer hi

end Dense

/-! ## Diagonal matrices -/

namespace Diagonal

theorem mem_offsetEntries {m : Diagonal α} {i : Nat} {a : α} :
    (i, a) ∈ m.offsetEntries ↔ ∃ k, m.data[k]? = some a ∧ m.dims.offset k k = i := by
  rw [offsetEntries, List.mem_mapIdx]
  constructor
  · rintro ⟨k, hk, h⟩
    obtain ⟨rfl, rfl⟩ := Prod.mk.inj h
    exact ⟨k, List.getElem?_eq_getElem hk, (Dims.diagonalOffset_eq k).symm⟩
  · rintro ⟨k, hk, rfl⟩
    obtain ⟨hlt, rfl⟩ := List.getElem?_eq_some_iff.mp hk
    exact ⟨k, hlt, by rw [Dims.diagonalOffset_eq]⟩

theorem WellFormed.lt_of_getElem? {m : Diagonal α} (h : m.WellFormed) {k : Nat} {a : α}
    (hk : m.data[k]? = some a) : k < m.dims.rows ∧ k < m.dims.cols := by
  obtain ⟨hk, _⟩ := List.getElem?_eq_some_iff.mp hk
  exact Nat.lt_min.mp (Nat.lt_of_lt_of_le hk h.data_le)

theorem nodup_offsetEntries (m : Diagonal α) : (m.offsetEntries.map Prod.fst).Nodup := by
  rw [List.nodup_iff_pairwise_ne, List.pairwise_iff_getElem]
  intro i j hi hj hij
  simp only [offsetEntries, List.getElem_map, List.getElem_mapIdx, Dims.diagonalOffset]
  exact Nat.ne_of_lt (Nat.mul_lt_mul_of_pos_right hij (Nat.succ_pos _))

theorem WellFormed.get?_toDense [Element α] {m : Diagonal α} (h : m.WellFormed) {row col : Nat}
    (hr : row < m.dims.rows) (hc : col < m.dims.cols) :
    m.toDense.get? row col = m.get? row col := by
  obtain ⟨hstored, hzero⟩ := Dense.get?_write m.nodup_offsetEntries hr hc
  rw [toDense, get?, if_pos (Dims.contains_iff.mpr ⟨hr, hc⟩), List.getD_eq_getElem?_getD]
  by_cases hmem : ∃ a, (m.dims.offset row col, a) ∈ m.offsetEntries
  · obtain ⟨a, hmem⟩ := hmem
    rw [hstored a hmem]
    obtain ⟨k, hk, hoff⟩ := mem_offsetEntries.mp hmem
    obtain ⟨rfl, rfl⟩ := (Dims.offset_inj (h.lt_of_getElem? hk).1 hr).mp hoff
    rw [if_pos rfl, hk, Option.getD_some]
  · rw [hzero fun hfst => ?_]
    · split
      · subst col
        cases hk : m.data[row]? with
        | none => rfl
        | some a => exact absurd ⟨a, mem_offsetEntries.mpr ⟨row, hk, rfl⟩⟩ hmem
      · rfl
    · obtain ⟨⟨_, a⟩, ha, rfl⟩ := List.mem_map.mp hfst
      exact hmem ⟨a, ha⟩

theorem WellFormed.toDense [Element α] {m : Diagonal α} (h : m.WellFormed) : m.toDense.WellFormed where
  positive := h.positive
  length_data := by rw [Diagonal.toDense, Dense.length_write, Dense.length_zeroBuffer]

end Diagonal

/-! ## Sparse matrices -/

namespace Sparse

theorem mem_offsetEntries {m : Sparse α} {i : Nat} {a : α} :
    (i, a) ∈ m.offsetEntries ↔
      ∃ col < m.dims.cols, ∃ row, (row, a) ∈ m.column col ∧ m.dims.offset row.toNat col = i := by
  simp only [offsetEntries, List.mem_flatMap, List.mem_range, List.mem_map]
  constructor
  · rintro ⟨col, hc, ⟨row, _⟩, hmem, h⟩
    obtain ⟨rfl, rfl⟩ := Prod.mk.inj h
    exact ⟨col, hc, row, hmem, rfl⟩
  · rintro ⟨col, hc, row, hmem, rfl⟩
    exact ⟨col, hc, (row, a), hmem, rfl⟩

namespace WellFormed

variable [Element α] {m : Sparse α} (h : m.WellFormed)

include h

theorem mem_column_of_offset {row col : Nat} (hr : row < m.dims.rows) {a : α}
    (hmem : (m.dims.offset row col, a) ∈ m.offsetEntries) : ((row : Int), a) ∈ m.column col := by
  obtain ⟨col', _, row', hmem, hoff⟩ := mem_offsetEntries.mp hmem
  obtain ⟨hnn, hlt⟩ := h.row_bounds_column hmem
  obtain ⟨rfl, rfl⟩ := (Dims.offset_inj (by omega) hr).mp hoff
  rwa [Int.toNat_of_nonneg hnn]

theorem nodup_offsetEntries : (m.offsetEntries.map Prod.fst).Nodup := by
  rw [offsetEntries, List.map_flatMap, List.nodup_flatMap]
  refine ⟨fun col hc => ?_, ?_⟩
  -- within a column the rows differ, and no two of them have one offset
  · have hnodup := h.nodup_fst_column (List.mem_range.mp hc)
    rw [List.nodup_iff_pairwise_ne, List.pairwise_map] at hnodup
    rw [List.nodup_iff_pairwise_ne, List.map_map, List.pairwise_map]
    refine hnodup.imp_of_mem ?_
    rintro ⟨row, a⟩ ⟨row', a'⟩ hmem hmem' hne hoff
    obtain ⟨hnn, hlt⟩ := h.row_bounds_column hmem
    obtain ⟨hnn', hlt'⟩ := h.row_bounds_column hmem'
    have := ((Dims.offset_inj (by omega) (by omega)).mp hoff).1
    exact hne (show row = row' by omega)
  · refine List.nodup_range.imp fun {col col'} hne offset hoff hoff' => ?_
    simp only [List.map_map, List.mem_map, Function.comp_apply] at hoff hoff'
    obtain ⟨⟨row, a⟩, hmem, rfl⟩ := hoff
    obtain ⟨⟨row', a'⟩, hmem', hoff⟩ := hoff'
    obtain ⟨hnn, hlt⟩ := h.row_bounds_column hmem
    obtain ⟨hnn', hlt'⟩ := h.row_bounds_column hmem'
    exact hne ((Dims.offset_inj (by omega) (by omega)).mp hoff).2.symm

theorem get?_toDense {row col : Nat} (hr : row < m.dims.rows) (hc : col < m.dims.cols) :
    m.toDense.get? row col = m.get? row col := by
  obtain ⟨hstored, hzero⟩ := Dense.get?_write h.nodup_offsetEntries hr hc
  rw [toDense]
  by_cases hmem : ∃ a, ((row : Int), a) ∈ m.column col
  · obtain ⟨a, hmem⟩ := hmem
    rw [h.get?_of_mem hc hmem]
    exact hstored a (mem_offsetEntries.mpr ⟨col, hc, row, hmem, by rw [Int.toNat_natCast]⟩)
  · rw [get?_of_not_mem (Dims.contains_iff.mpr ⟨hr, hc⟩) fun a ha => hmem ⟨a, ha⟩]
    refine hzero fun hfst => ?_
    obtain ⟨⟨_, a⟩, ha, rfl⟩ := List.mem_map.mp hfst
    exact hmem ⟨a, h.mem_column_of_offset hr ha⟩

end WellFormed

theorem WellFormed.toDense [Element α] {m : Sparse α} (h : m.WellFormed) : m.toDense.WellFormed where
  positive := h.positive
  length_data := by rw [Sparse.toDense, Dense.length_write, Dense.length_zeroBuffer]

end Sparse

/-! ## All shapes -/

namespace Storage

variable [Element α]

@[simp] theorem dims_toDense (s : Storage α) : s.toDense.dims = s.dims := by
  cases s <;> rfl

theorem WellFormed.toDense {s : Storage α} (h : s.WellFormed) : s.toDense.WellFormed := by
  cases s with
  | dense m => exact h
  | diagonal m => exact Diagonal.WellFormed.toDense h
  | sparse m => exact Sparse.WellFormed.toDense h

theorem get?_eq_none {s : Storage α} {row col : Nat} (h : s.dims.contains row col = false) :
    s.get? row col = none := by
  cases s with
  | dense m => exact Dense.get?_eq_none h
  | diagonal m => exact if_neg (Bool.eq_false_iff.mp h)
  | sparse m => exact Sparse.get?_eq_none h

/-- Spreading a matrix out changes no entry. -/
theorem WellFormed.get?_toDense {s : Storage α} (h : s.WellFormed) (row col : Nat) :
    s.toDense.get? row col = s.get? row col := by
  cases hin : s.dims.contains row col with
  | false => rw [get?_eq_none hin, Dense.get?_eq_none (by rw [dims_toDense, hin])]
  | true =>
      obtain ⟨hr, hc⟩ := Dims.contains_iff.mp hin
      cases s with
      | dense m => rfl
      | diagonal m => exact Diagonal.WellFormed.get?_toDense h hr hc
      | sparse m => exact Sparse.WellFormed.get?_toDense h hr hc

theorem WellFormed.get?_eq_some {s : Storage α} (h : s.WellFormed) {row col : Nat}
    (hr : row < s.dims.rows) (hc : col < s.dims.cols) :
    s.get? row col = some (s.toDense.entry row col) := by
  rw [← s.dims_toDense] at hr hc
  rw [← h.get?_toDense, h.toDense.get?_eq_some hr hc]

end Storage

end StoredMatrix
