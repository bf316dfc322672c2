import StoredMatrix.Proofs.Compression

/-!
# Structural equality

Words laid out one element after the other can be read back, so buffers with the same words hold
the same elements. Well-formed matrices are structurally equal only if nothing tells them apart,
although the cached maximum of a sparse matrix is not compared.
-/

namespace StoredMatrix

variable {α : Type}

namespace Storage

/-- One shape, one size, and the stored entries at the same places. -/
inductive SameLayout : Storage α → Storage α → Prop
  | dense {m n : Dense α} : m.dims = n.dims → SameLayout (.dense m) (.dense n)
  | diagonal {m n : Diagonal α} : m.dims = n.dims → SameLayout (.diagonal m) (.diagonal n)
  | sparse {m n : Sparse α} : m.dims = n.dims → m.colPtrs = n.colPtrs → m.rowIndices = n.rowIndices →
    SameLayout (.sparse m) (.sparse n)

theorem SameLayout.symm {a b : Storage α} (h : SameLayout a b) : SameLayout b a := by
  cases h with
  | dense hd => exact .dense hd.symm
  | diagonal hd => exact .diagonal hd.symm
  | sparse hd hp hr => exact .sparse hd.symm hp.symm hr.symm

theorem sameLayout_iff {a b : Storage α} : sameLayout a b = true ↔ SameLayout a b := by
  simp only [sameLayout, Bool.and_eq_true, decide_eq_true_eq]
  constructor
  · rintro ⟨hd, hplaces⟩
    cases a with
    | dense m =>
        cases b with
        | dense n => exact .dense hd
        | diagonal n => cases hplaces
        | sparse n => cases hplaces
    | diagonal m =>
        cases b with
        | diagonal n => exact .diagonal hd
        | dense n => cases hplaces
        | sparse n => cases hplaces
    | sparse m =>
        cases b with
        | sparse n =>
            simp only [samePattern, Bool.and_eq_true, decide_eq_true_eq] at hplaces
            exact .sparse hd hplaces.1 hplaces.2
        | dense n => cases hplaces
        | diagonal n => cases hplaces
  · intro h
    cases h with
    | dense hd => exact ⟨hd, rfl⟩
    | diagonal hd => exact ⟨hd, rfl⟩
    | sparse hd hp hr => exact ⟨hd, by simp [samePattern, hp, hr]⟩

end Storage

variable [Element α]

theorem rawWords_injective : Function.Injective (rawWords (α := α)) :=
  Function.LeftInverse.injective Element.ofWords_flatMap_words

theorem Element.width_pos : 0 < Element.width α := by
  refine Nat.pos_of_ne_zero fun h => ?_
  -- an element without words could not be read back
  have hwords : Element.words (Entry.zero : α) = [] :=
    List.length_eq_zero_iff.mp ((Element.length_words _).trans h)
  have heq : rawWords [(Entry.zero : α)] = rawWords (α := α) [] := by
    simp [rawWords, hwords]
  cases rawWords_injective heq

theorem length_rawWords (xs : List α) : (rawWords xs).length = xs.length * Element.width α := by
  induction xs with
  | nil => simp [rawWords]
  | cons x xs ih =>
      rw [rawWords, List.flatMap_cons, List.length_append, Element.length_words, ← rawWords, ih,
        List.length_cons, Nat.succ_mul, Nat.add_comm]

namespace Storage

theorem structEq_refl (a : Storage α) : a.structEq a = true := by
  cases a <;> simp [structEq, sameLayout, samePattern]

/-- Nothing that is stored differs between structurally equal matrices. -/
theorem structEq_iff {a b : Storage α} (ha : a.WellFormed) (hb : b.WellFormed) :
    a.structEq b = true ↔ a = b := by
  refine ⟨fun h => ?_, fun h => h ▸ structEq_refl a⟩
  simp only [structEq, Bool.and_eq_true, decide_eq_true_eq, sameLayout_iff] at h
  obtain ⟨hlayout, hraw⟩ := h
  have helements : a.elements = b.elements := rawWords_injective hraw
  cases hlayout with
  | @dense m n hd =>
      cases m
      cases n
      cases hd
      cases helements
      rfl
  | @diagonal m n hd =>
      cases m
      cases n
      cases hd
      cases helements
      rfl
  | sparse hd hp hr => rw [Sparse.WellFormed.ext ha hb hd hp hr helements]

end Storage

end StoredMatrix
