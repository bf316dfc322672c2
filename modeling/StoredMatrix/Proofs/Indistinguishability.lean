import StoredMatrix.Proofs.RoundTrip

/-!
# Indistinguishable matrices

Structural equality compares neither the cached maximum of a sparse matrix nor what can be asked of
a matrix. Of reachable matrices it holds only where the complete state is the same, so where nothing
that can be asked has another answer.
-/

namespace StoredMatrix

/-! ## What can be asked -/

/-- What only the matrices of one shape tell. -/
inductive Details
  | dense (isZero : Bool)
  | diagonal
  | sparse (colPtrs rowIndices : List Int) (maxColEntries : Nat)

section Details

variable {α : Type} [Element α]

def Storage.details : Storage α → Details
  | dense m => .dense m.isZero
  | diagonal _ => .diagonal
  | sparse m => .sparse m.colPtrs m.rowIndices m.maxColEntries

theorem Storage.sameLayout_of_details {a b : Storage α} (hd : a.dims = b.dims)
    (hdetails : a.details = b.details) : SameLayout a b := by
  cases a with
  | dense m =>
      cases b with
      | dense n => exact .dense hd
      | diagonal n => cases hdetails
      | sparse n => cases hdetails
  | diagonal m =>
      cases b with
      | diagonal n => exact .diagonal hd
      | dense n => cases hdetails
      | sparse n => cases hdetails
  | sparse m =>
      cases b with
      | sparse n =>
          simp only [details, Details.sparse.injEq] at hdetails
          exact .sparse hd hdetails.1 hdetails.2.1
      | dense n => cases hdetails
      | diagonal n => cases hdetails

theorem Storage.structEq_of_details {a b : Storage α} (hd : a.dims = b.dims)
    (hdetails : a.details = b.details) (hraw : a.raw = b.raw) : a.structEq b = true := by
  rw [structEq, sameLayout_iff.mpr (sameLayout_of_details hd hdetails), hraw]
  simp

end Details

namespace Matrix

def details : Matrix → Details
  | real s => s.details
  | complex s => s.details

/-- Whatever is asked of one matrix, the other answers the same. -/
structure Indistinguishable (a b : Matrix) : Prop where
  domain_eq : a.domain = b.domain
  shape_eq : a.shape = b.shape
  dims_eq : a.dims = b.dims
  details_eq : a.details = b.details
  raw_eq : a.raw = b.raw
  memoryUsage_eq : a.memoryUsage = b.memoryUsage
  get?_eq : ∀ row col, a.get? row col = b.get? row col
  display_eq : ∀ precision, a.display precision = b.display precision
  /-- Conversions that are refused are refused with the same error. -/
  apply_eq : ∀ c : Conversion, c.apply a = c.apply b
  fuzzyEq_left : ∀ t m, fuzzyEq t a m = fuzzyEq t b m
  fuzzyEq_right : ∀ t m, fuzzyEq t m a = fuzzyEq t m b
  mathsEq_left : ∀ t m, mathsEq t a m = mathsEq t b m
  mathsEq_right : ∀ t m, mathsEq t m a = mathsEq t m b

variable {a b : Matrix}

theorem Indistinguishable.refl (a : Matrix) : a.Indistinguishable a := by
  constructor <;> intros <;> rfl

theorem Indistinguishable.structEq (h : a.Indistinguishable b) : a.structEq b = true := by
  cases a with
  | real r =>
      cases b with
      | real s => exact Storage.structEq_of_details h.dims_eq h.details_eq h.raw_eq
      | complex s => cases h.domain_eq
  | complex r =>
      cases b with
      | complex s => exact Storage.structEq_of_details h.dims_eq h.details_eq h.raw_eq
      | real s => cases h.domain_eq

/-! ## Equality of what is stored -/

theorem WellFormed.structEq_iff (ha : a.WellFormed) (hb : b.WellFormed) :
    a.structEq b = true ↔ a = b := by
  cases a with
  | real r =>
      cases b with
      | real s => rw [Matrix.real.injEq, ← Storage.structEq_iff ha hb, structEq]
      | complex s => exact ⟨nofun, nofun⟩
  | complex r =>
      cases b with
      | complex s => rw [Matrix.complex.injEq, ← Storage.structEq_iff ha hb, structEq]
      | real s => exact ⟨nofun, nofun⟩

/--
Structural equality is equality of the complete state, hence an equivalence, and holds exactly of
matrices that nothing tells apart.
-/
theorem structEq_iff_indistinguishable (ha : a.Reachable) (hb : b.Reachable) :
    (a.structEq b = true ↔ a = b) ∧ (a.structEq b = true ↔ a.Indistinguishable b) ∧
      Equivalence fun m n : {m : Matrix // m.Reachable} => m.1.structEq n.1 = true := by
  have heq : ∀ m n : {m : Matrix // m.Reachable}, m.1.structEq n.1 = true ↔ m.1 = n.1 :=
    fun m n => m.2.wellFormed.structEq_iff n.2.wellFormed
  have hab : a.structEq b = true ↔ a = b := heq ⟨a, ha⟩ ⟨b, hb⟩
  refine ⟨hab, ⟨fun h => hab.mp h ▸ .refl a, Indistinguishable.structEq⟩, ?_, ?_, ?_⟩
  · exact fun m => (heq m m).mpr rfl
  · exact fun {m n} h => (heq n m).mpr ((heq m n).mp h).symm
  · exact fun {l m n} h h' => (heq l n).mpr (((heq l m).mp h).trans ((heq m n).mp h'))

/-- A matrix with a NaN is like itself, and unlike the one that holds the other zero. -/
theorem structEq_iff_indistinguishable_signedZeroSample :
    (real (.dense signedZeroSample)).Reachable ∧
    (real (.dense ⟨⟨2, 2⟩, [.zero, .nan, .zero, .one]⟩)).Reachable ∧
    (real (.dense signedZeroSample)).Indistinguishable (real (.dense signedZeroSample)) ∧
    ¬ (real (.dense signedZeroSample)).Indistinguishable
      (real (.dense ⟨⟨2, 2⟩, [.zero, .nan, .zero, .one]⟩)) := by
  have ha := reachable_signedZeroSample
  have hb : (real (.dense ⟨⟨2, 2⟩, [.zero, .nan, .zero, .one]⟩)).Reachable :=
    .build (.real (.denseColumnMajor [.zero, .nan, .zero, .one] ⟨2, 2⟩)) (by decide +kernel)
  refine ⟨ha, hb, (structEq_iff_indistinguishable ha ha).2.1.mp (by decide +kernel), fun h => ?_⟩
  exact absurd ((structEq_iff_indistinguishable ha hb).2.1.mpr h) (by decide +kernel)

end Matrix

end StoredMatrix
