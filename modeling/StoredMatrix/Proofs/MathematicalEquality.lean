import StoredMatrix.Proofs.Promotion
import StoredMatrix.Proofs.RoundTrip
import StoredMatrix.Proofs.SignedZero

/-!
# Mathematical equality

Whichever shapes and domains two matrices have, they are compared position by position: the real
parts of the promoted entries and the imaginary ones, each under the tolerance. Conversions change
these parts in nothing but the signs of zeros, which the tolerance does not tell apart.
-/

namespace StoredMatrix

variable {t : Tolerance}

/-! ## Close complex numbers -/

/-- Both parts are close. -/
structure Complex.IsClose (t : Tolerance) (z w : Complex) : Prop where
  re : t.isClose z.re w.re = true
  im : t.isClose z.im w.im = true

namespace Complex

variable {z w : Complex}

theorem isClose_iff :
    z.IsClose t w ↔ t.isClose z.re w.re = true ∧ t.isClose z.im w.im = true :=
  ⟨fun h => ⟨h.re, h.im⟩, fun h => ⟨h.1, h.2⟩⟩

theorem isClose_normalize_left : IsClose t (Entry.normalize z) w ↔ IsClose t z w := by
  cases hz : Entry.isZero z with
  | false => rw [Entry.normalize_of_isNonzero (congrArg not hz)]
  | true =>
      obtain ⟨hre, him⟩ := Bool.and_eq_true_iff.mp hz
      rw [Entry.normalize_of_isZero hz, isClose_iff, isClose_iff, t.isClose_of_isZero_left hre,
        t.isClose_of_isZero_left him]
      rfl

theorem isClose_normalize_right : IsClose t z (Entry.normalize w) ↔ IsClose t z w := by
  cases hw : Entry.isZero w with
  | false => rw [Entry.normalize_of_isNonzero (congrArg not hw)]
  | true =>
      obtain ⟨hre, him⟩ := Bool.and_eq_true_iff.mp hw
      rw [Entry.normalize_of_isZero hw, isClose_iff, isClose_iff, t.isClose_of_isZero_right hre,
        t.isClose_of_isZero_right him]
      rfl

end Complex

/-! ## Close buffers -/

section Buffers

variable {α : Type} [Element α]

theorem Tolerance.allClose_append {as bs : List Binary64} (h : as.length = bs.length)
    (as' bs' : List Binary64) :
    t.allClose (as ++ as') (bs ++ bs') = (t.allClose as bs && t.allClose as' bs') := by
  have hlength : decide ((as ++ as').length = (bs ++ bs').length) =
      (decide (as.length = bs.length) && decide (as'.length = bs'.length)) := by
    simp only [List.length_append, h, Nat.add_left_cancel_iff, decide_true, Bool.true_and]
  rw [allClose, allClose, allClose, hlength, List.zip_append h, List.all_append]
  ac_rfl

theorem allClose_rawWords {xs ys : List α} (h : xs.length = ys.length) :
    t.allClose (rawWords xs) (rawWords ys) = true ↔
      ∀ p ∈ xs.zip ys, t.allClose (Element.words p.1) (Element.words p.2) = true := by
  induction xs generalizing ys with
  | nil =>
      obtain rfl := List.length_eq_zero_iff.mp h.symm
      exact ⟨fun _ _ hp => (List.not_mem_nil hp).elim, fun _ => rfl⟩
  | cons x xs ih =>
      cases ys with
      | nil => cases h
      | cons y ys =>
          have hwords : (Element.words x).length = (Element.words y).length := by
            rw [Element.length_words, Element.length_words]
          rw [rawWords, rawWords, List.flatMap_cons, List.flatMap_cons, Tolerance.allClose_append hwords,
            Bool.and_eq_true, ← rawWords, ← rawWords, ih (Nat.succ.inj h), List.zip_cons_cons,
            List.forall_mem_cons]

namespace Dense.WellFormed

variable {m n : Dense α} (h : m.WellFormed) (h' : n.WellFormed)

include h h'

theorem forall_mem_zip {P : α × α → Prop} (hd : m.dims = n.dims) :
    (∀ p ∈ m.data.zip n.data, P p) ↔
      ∀ row < m.dims.rows, ∀ col < m.dims.cols, P (m.entry row col, n.entry row col) := by
  have hboth : ∀ row < m.dims.rows, ∀ col < m.dims.cols,
      (m.data.zip n.data)[m.dims.offset row col]? = some (m.entry row col, n.entry row col) :=
    fun row hr col hc => List.getElem?_zip_eq_some.mpr
      ⟨h.getElem?_offset hr hc, hd ▸ h'.getElem?_offset (hd ▸ hr) (hd ▸ hc)⟩
  constructor
  · exact fun hall row hr col hc => hall _ (List.mem_of_getElem? (hboth row hr col hc))
  · intro hall p hp
    obtain ⟨i, hi⟩ := List.getElem?_of_mem hp
    obtain ⟨hlt, _⟩ := List.getElem?_eq_some_iff.mp (List.getElem?_zip_eq_some.mp hi).1
    obtain ⟨row, hr, col, hc, rfl⟩ := Dims.exists_offset_eq (h.length_data ▸ hlt)
    rw [hboth row hr col hc, Option.some.injEq] at hi
    exact hi ▸ hall row hr col hc

theorem fuzzyEq_iff (hd : m.dims = n.dims) : Storage.fuzzyEq t (.dense m) (.dense n) = true ↔
    ∀ row < m.dims.rows, ∀ col < m.dims.cols,
      t.allClose (Element.words (m.entry row col)) (Element.words (n.entry row col)) = true := by
  have hlength : m.data.length = n.data.length := by rw [h.length_data, h'.length_data, hd]
  have hlayout : Storage.sameLayout (.dense m) (.dense n) = true := by
    rw [Storage.sameLayout, Bool.and_true]
    exact decide_eq_true hd
  rw [Storage.fuzzyEq, hlayout, Bool.true_and]
  exact (allClose_rawWords hlength).trans (h.forall_mem_zip h' hd)

end Dense.WellFormed

end Buffers

theorem allClose_words_complex (z w : Complex) :
    t.allClose (Element.words z) (Element.words w) = true ↔ z.IsClose t w := by
  have hwords : t.allClose (Element.words z) (Element.words w) =
      (t.isClose z.re w.re && (t.isClose z.im w.im && true)) := rfl
  rw [hwords, Bool.and_true, Bool.and_eq_true, Complex.isClose_iff]

/-- The imaginary parts that real numbers get are always close. -/
theorem allClose_words_real (x y : Binary64) :
    t.allClose (Element.words x) (Element.words y) = true ↔
      (Element.promote x).IsClose t (Element.promote y) := by
  have hwords : t.allClose (Element.words x) (Element.words y) = (t.isClose x y && true) := rfl
  rw [hwords, Bool.and_true]
  exact ⟨fun h => ⟨h, t.isClose_of_isZero Binary64.isZero_zero Binary64.isZero_zero⟩, fun h => h.re⟩

/-! ## Comparing matrices -/

namespace Matrix

theorem WellFormed.get?_eq_some {m : Matrix} (h : m.WellFormed) {row col : Nat}
    (hr : row < m.dims.rows) (hc : col < m.dims.cols) :
    ∃ x, m.get? row col = some x ∧ x.promote = m.toComplexDense.entry row col := by
  cases m with
  | real s =>
      have hentry := Storage.WellFormed.get?_eq_some h hr hc
      exact ⟨_, congrArg (Option.map Scalar.real) hentry, (s.toDense.entry_toComplex row col).symm⟩
  | complex s =>
      have hentry := Storage.WellFormed.get?_eq_some h hr hc
      exact ⟨_, congrArg (Option.map Scalar.complex) hentry, (s.toDense.entry_toComplex row col).symm⟩

/-- On either path, the parts at every position are compared. -/
theorem WellFormed.mathsEq_iff {a b : Matrix} (ha : a.WellFormed) (hb : b.WellFormed) :
    a.mathsEq t b = true ↔ a.dims = b.dims ∧ ∀ row < a.dims.rows, ∀ col < a.dims.cols,
      (a.toComplexDense.entry row col).IsClose t (b.toComplexDense.entry row col) := by
  rw [mathsEq, Bool.and_eq_true, decide_eq_true_eq]
  refine and_congr_right fun hd => ?_
  have hd' : a.toComplexDense.dims = b.toComplexDense.dims := by
    rw [dims_toComplexDense, dims_toComplexDense, hd]
  have hcomplex : Storage.fuzzyEq t (.dense a.toComplexDense) (.dense b.toComplexDense) = true ↔
      ∀ row < a.dims.rows, ∀ col < a.dims.cols,
        (a.toComplexDense.entry row col).IsClose t (b.toComplexDense.entry row col) := by
    rw [ha.toComplexDense.fuzzyEq_iff hb.toComplexDense hd', dims_toComplexDense]
    simp only [allClose_words_complex]
  cases a with
  | complex r => cases b <;> exact hcomplex
  | real r =>
      cases b with
      | complex s => exact hcomplex
      | real s =>
          -- here the imaginary parts are not compared, but they would be zeros
          have hreal := Dense.WellFormed.fuzzyEq_iff (t := t) (Storage.WellFormed.toDense ha)
            (Storage.WellFormed.toDense hb) hd'
          simp only [allClose_words_real, ← Dense.entry_toComplex, Storage.dims_toDense] at hreal
          exact hreal

/-- What relates the promoted entries relates what is read at every position. -/
theorem WellFormed.forall_entry_iff {a b : Matrix} (ha : a.WellFormed) (hb : b.WellFormed)
    (hd : a.dims = b.dims) {R : Complex → Complex → Prop} :
    (∀ row < a.dims.rows, ∀ col < a.dims.cols,
      R (a.toComplexDense.entry row col) (b.toComplexDense.entry row col)) ↔
    ∀ row < a.dims.rows, ∀ col < a.dims.cols, ∃ x y,
      a.get? row col = some x ∧ b.get? row col = some y ∧ R x.promote y.promote := by
  refine forall₂_congr fun row hr => forall₂_congr fun col hc => ?_
  obtain ⟨x, hx, hx'⟩ := ha.get?_eq_some hr hc
  obtain ⟨y, hy, hy'⟩ := hb.get?_eq_some (hd ▸ hr) (hd ▸ hc)
  rw [← hx', ← hy']
  constructor
  · exact fun h => ⟨x, y, hx, hy, h⟩
  · rintro ⟨_, _, hx'', hy'', h⟩
    obtain rfl := Option.some.inj (hx.symm.trans hx'')
    obtain rfl := Option.some.inj (hy.symm.trans hy'')
    exact h

end Matrix

/-! ## Replacing an operand -/

section Shapes

variable {α : Type} [Element α] {s : Storage α} (h : s.WellFormed) {row col : Nat}

include h

/-- Promoting in a shape and spreading out can be done in either order. -/
theorem Storage.WellFormed.entry_toComplex (hr : row < s.dims.rows) (hc : col < s.dims.cols) :
    s.toComplex.toDense.toComplex.entry row col = s.toDense.toComplex.entry row col := by
  have hget := s.get?_toComplex row col
  rw [h.toComplex.get?_eq_some (s.dims_toComplex.symm ▸ hr) (s.dims_toComplex.symm ▸ hc),
    h.get?_eq_some hr hc] at hget
  rw [Dense.entry_toComplex, Dense.entry_toComplex, Option.some.inj hget]
  rfl

theorem Storage.WellFormed.normalize_entry_toSparse {n : Sparse α} (hn : s.toDense.toSparse = .ok n)
    (hr : row < s.dims.rows) (hc : col < s.dims.cols) :
    Entry.normalize (n.toDense.toComplex.entry row col) =
      Entry.normalize (s.toDense.toComplex.entry row col) := by
  have hd : n.dims = s.toDense.dims := Sparse.dims_compress hn
  rw [← s.dims_toDense] at hr hc
  have hget := h.toDense.get?_toDense_of_toSparse hn hr hc
  rw [← hd] at hr hc
  rw [(h.toDense.toSparse hn).toDense.get?_eq_some hr hc] at hget
  rw [Dense.entry_toComplex, Dense.entry_toComplex, Option.some.inj hget, ← Entry.normalize_promote,
    Entry.normalize_normalize]

end Shapes

/-- Conversions change no entry but zeros, and of those only the sign. -/
theorem Conversion.normalize_entry_apply {c : Conversion} {m n : Matrix} (hm : m.WellFormed)
    (h : c.apply m = .ok n) {row col : Nat} (hr : row < m.dims.rows) (hc : col < m.dims.cols) :
    Entry.normalize (n.toComplexDense.entry row col) =
      Entry.normalize (m.toComplexDense.entry row col) := by
  cases c with
  | toDense =>
      obtain rfl := Except.ok.inj h
      cases m <;> rfl
  | toComplexDense =>
      obtain rfl := Except.ok.inj h
      exact congrArg Entry.normalize (m.toComplexDense.entry_toComplex row col)
  | toRealDense =>
      cases m with
      | real s => exact Except.ok.inj h ▸ rfl
      | complex s => cases h
  | toComplex =>
      obtain rfl := Except.ok.inj h
      cases m with
      | real s => exact congrArg Entry.normalize (Storage.WellFormed.entry_toComplex hm hr hc)
      | complex s => exact congrArg Entry.normalize (Storage.WellFormed.entry_toComplex hm hr hc)
  | toSparse =>
      cases m with
      | real s =>
          obtain ⟨n, hn, rfl⟩ := map_eq_ok.mp h
          exact Storage.WellFormed.normalize_entry_toSparse hm hn hr hc
      | complex s =>
          obtain ⟨n, hn, rfl⟩ := map_eq_ok.mp h
          exact Storage.WellFormed.normalize_entry_toSparse hm hn hr hc

namespace Matrix

theorem WellFormed.mathsEq_apply_left {c : Conversion} {a a' b : Matrix} (ha : a.WellFormed)
    (hb : b.WellFormed) (h : c.apply a = .ok a') : a'.mathsEq t b = a.mathsEq t b := by
  rw [Bool.eq_iff_iff, (c.wellFormed_apply ha h).mathsEq_iff hb, ha.mathsEq_iff hb, c.dims_apply h]
  refine and_congr_right fun hd => forall₂_congr fun row hr => forall₂_congr fun col hc => ?_
  rw [← Complex.isClose_normalize_left, c.normalize_entry_apply ha h hr hc,
    Complex.isClose_normalize_left]

theorem WellFormed.mathsEq_apply_right {c : Conversion} {a b b' : Matrix} (ha : a.WellFormed)
    (hb : b.WellFormed) (h : c.apply b = .ok b') : a.mathsEq t b' = a.mathsEq t b := by
  rw [Bool.eq_iff_iff, ha.mathsEq_iff (c.wellFormed_apply hb h), ha.mathsEq_iff hb, c.dims_apply h]
  refine and_congr_right fun hd => forall₂_congr fun row hr => forall₂_congr fun col hc => ?_
  rw [← Complex.isClose_normalize_right, c.normalize_entry_apply hb h (hd ▸ hr) (hd ▸ hc),
    Complex.isClose_normalize_right]

/-- Mathematical equality depends on the entries at all positions only. -/
theorem WellFormed.mathsEq_iff_isClose {a b : Matrix} (ha : a.WellFormed) (hb : b.WellFormed) :
    a.mathsEq t b = true ↔ a.dims = b.dims ∧ ∀ row < a.dims.rows, ∀ col < a.dims.cols,
      ∃ x y, a.get? row col = some x ∧ b.get? row col = some y ∧
        t.isClose x.promote.re y.promote.re = true ∧ t.isClose x.promote.im y.promote.im = true := by
  rw [ha.mathsEq_iff hb]
  refine and_congr_right fun hd => ?_
  rw [ha.forall_entry_iff hb hd]
  simp only [Complex.isClose_iff]

end Matrix

end StoredMatrix
