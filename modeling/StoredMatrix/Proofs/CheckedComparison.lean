import StoredMatrix.Proofs.DenseForms
import StoredMatrix.Proofs.ExtremeTolerances

/-!
# Comparing where there is room

Mathematical equality compares dense forms, which two matrices of the same dimensions may not have. What it
says of their entries it says where there is room for the forms; without room there is no answer,
whatever the entries are, while structural and fuzzy equality are decided by what is stored.
-/

namespace StoredMatrix

namespace Matrix

variable {t : Tolerance} {a b : Matrix}

/-! ## Room for the dense forms -/

/--
There is room for complex dense forms, or for real ones where these are compared. Matrices of different
dimensions need none.
-/
def RoomToCompare (a b : Matrix) : Prop :=
  a.dims = b.dims →
    a.dims.Allocatable ∨ (a.domain = .real ∧ b.domain = .real) ∧ a.Expandable ∧ b.Expandable

instance : Decidable (a.RoomToCompare b) := inferInstanceAs (Decidable (_ → _))

theorem roomToCompare_iff_of_complex (hd : a.dims = b.dims) (h : ¬(a.domain = .real ∧ b.domain = .real)) :
    a.RoomToCompare b ↔ a.dims.Allocatable :=
  ⟨fun hroom => (hroom hd).resolve_right fun hreal => h hreal.1, fun hroom _ => .inl hroom⟩

theorem roomToCompare_iff_of_real (hd : a.dims = b.dims) (h : a.domain = .real ∧ b.domain = .real) :
    a.RoomToCompare b ↔ a.Expandable ∧ b.Expandable := by
  constructor
  · intro hroom
    rcases hroom hd with hroom | ⟨_, hroom⟩
    · exact ⟨hroom.expandable, (hd ▸ hroom : b.dims.Allocatable).expandable⟩
    · exact hroom
  · exact fun hroom _ => .inr ⟨h, hroom⟩

theorem WellFormed.checkedMathsEq_eq (ha : a.WellFormed) (hb : b.WellFormed) (hna : a.dims.count < wordLimit)
    (hnb : b.dims.count < wordLimit) :
    a.checkedMathsEq t b = Checked.ifRoom (a.RoomToCompare b) (a.mathsEq t b) := by
  by_cases hd : a.dims = b.dims
  · have hcomplex : (do
          let m ← a.checkedToComplexDense
          let n ← b.checkedToComplexDense
          return Storage.fuzzyEq t (.dense m) (.dense n)) =
        Checked.ifRoom a.dims.Allocatable
          (Storage.fuzzyEq t (.dense a.toComplexDense) (.dense b.toComplexDense)) := by
      rw [ha.checkedToComplexDense_eq hna, hb.checkedToComplexDense_eq hnb, ← hd]
      exact Checked.ifRoom_bind fun hroom => by rw [Checked.ifRoom_of hroom]; rfl
    rw [checkedMathsEq, if_pos hd, mathsEq, decide_eq_true hd, Bool.true_and]
    cases a with
    | complex r =>
        rw [Checked.ifRoom_congr (roomToCompare_iff_of_complex hd (by rintro ⟨h, _⟩; cases h))]
        cases b <;> exact hcomplex
    | real r =>
        cases b with
        | complex s =>
            rw [Checked.ifRoom_congr (roomToCompare_iff_of_complex hd (by rintro ⟨_, h⟩; cases h))]
            exact hcomplex
        | real s =>
            rw [Checked.ifRoom_congr (roomToCompare_iff_of_real hd ⟨rfl, rfl⟩), checkedToRealDense_real ha hna,
              checkedToRealDense_real hb hnb]
            exact Checked.ifRoom_bind_ifRoom (Checked.ifRoom_bind fun _ => rfl)
  · have hroom : a.RoomToCompare b := fun h => absurd h hd
    rw [checkedMathsEq, if_neg hd, Checked.ifRoom_of hroom, mathsEq, decide_eq_false hd]
    rfl

section Reachable

variable (ha : a.ReachableInMemory) (hb : b.ReachableInMemory)

include ha hb

theorem ReachableInMemory.checkedMathsEq_of_room (h : a.RoomToCompare b) :
    a.checkedMathsEq t b = .ok (a.mathsEq t b) := by
  rw [ha.wellFormed.checkedMathsEq_eq hb.wellFormed ha.count_lt hb.count_lt, Checked.ifRoom_of h]

theorem ReachableInMemory.checkedMathsEq_of_no_room (h : ¬a.RoomToCompare b) :
    a.checkedMathsEq t b = .error .capacity := by
  rw [ha.wellFormed.checkedMathsEq_eq hb.wellFormed ha.count_lt hb.count_lt, Checked.ifRoom_of_not h]

end Reachable

/-! ## Entries decide -/

theorem RoomToCompare.symm (h : a.RoomToCompare b) : b.RoomToCompare a := by
  intro hd
  rcases h hd.symm with hroom | ⟨⟨ha, hb⟩, hroom, hroom'⟩
  · exact .inl (hd ▸ hroom)
  · exact .inr ⟨⟨hb, ha⟩, hroom', hroom⟩

theorem RoomToCompare.of_allocatable (h : a.dims.Allocatable) : a.RoomToCompare b := fun _ => .inl h

theorem Expandable.of_real {m : Matrix} (hm : m.domain = .real) (h : m.dims.Fits 1) : m.Expandable := by
  cases m with
  | real s => exact Dims.Fits.expandable h
  | complex s => cases hm

/-- A conversion within the domain leaves room, if there is room for real numbers at all positions. -/
theorem RoomToCompare.of_dims_eq {a' : Matrix} (h : a.RoomToCompare b) (hd : a'.dims = a.dims)
    (hdomain : a'.domain = a.domain) (hfits : a.dims.Fits 1) : a'.RoomToCompare b := by
  intro hd'
  rcases h (hd.symm.trans hd') with hroom | ⟨⟨ha, hb⟩, _, hroom⟩
  · exact .inl (hd ▸ hroom)
  · have ha' : a'.domain = .real := hdomain.trans ha
    exact .inr ⟨⟨ha', hb⟩, .of_real ha' (hd ▸ hfits), hroom⟩

/--
Where there is room for the dense forms, mathematical equality depends on the entries at all positions
only. Converting either operand does not change the answer, if there is one before and after. With room
for complex numbers, operands can be spread out and promoted, and there is an answer afterwards.
-/
theorem comparison_decided_by_entries (ha : a.ReachableInMemory) (hb : b.ReachableInMemory) (t : Tolerance) :
    (a.RoomToCompare b → ∃ holds, a.checkedMathsEq t b = .ok holds ∧
      (holds = true ↔ a.dims = b.dims ∧ ∀ row < a.dims.rows, ∀ col < a.dims.cols,
        ∃ x y, a.get? row col = some x ∧ b.get? row col = some y ∧
          t.isClose x.promote.re y.promote.re = true ∧ t.isClose x.promote.im y.promote.im = true)) ∧
    (¬a.RoomToCompare b → a.checkedMathsEq t b = .error .capacity) ∧
    (∀ (c : Conversion) (a' : Matrix), c.checkedApply a = .ok (.ok a') →
      (a.RoomToCompare b → a'.RoomToCompare b → a'.checkedMathsEq t b = a.checkedMathsEq t b) ∧
      (a.dims.Allocatable → a'.RoomToCompare b) ∧
      (a'.domain = a.domain → a.dims.Fits 1 → a.RoomToCompare b → a'.RoomToCompare b)) ∧
    (∀ (c : Conversion) (b' : Matrix), c.checkedApply b = .ok (.ok b') →
      (a.RoomToCompare b → a.RoomToCompare b' → a.checkedMathsEq t b' = a.checkedMathsEq t b) ∧
      (b.dims.Allocatable → a.RoomToCompare b') ∧
      (b'.domain = b.domain → b.dims.Fits 1 → a.RoomToCompare b → a.RoomToCompare b')) ∧
    (∀ (c : Conversion) (m : Matrix), c = .toDense ∨ c = .toComplex → m = a ∨ m = b → m.dims.Allocatable →
      ∃ m', c.checkedApply m = .ok (.ok m')) := by
  refine ⟨fun hroom => ⟨_, ha.checkedMathsEq_of_room hb hroom, ha.wellFormed.mathsEq_iff_isClose hb.wellFormed⟩,
    ha.checkedMathsEq_of_no_room hb, fun c a' h => ?_, fun c b' h => ?_, fun c m hc hm hroom => ?_⟩
  · have happly : c.apply a = .ok a' := ha.wellFormed.apply_of_checked ha.count_lt h
    have ha' : a'.ReachableInMemory := ha.convert c happly
    have hd : a'.dims = a.dims := c.dims_apply happly
    refine ⟨fun hroom hroom' => ?_, fun hroom => .of_allocatable (hd ▸ hroom),
      fun hdomain hfits hroom => hroom.of_dims_eq hd hdomain hfits⟩
    rw [ha'.checkedMathsEq_of_room hb hroom', ha.checkedMathsEq_of_room hb hroom,
      ha.wellFormed.mathsEq_apply_left hb.wellFormed happly]
  · have happly : c.apply b = .ok b' := hb.wellFormed.apply_of_checked hb.count_lt h
    have hb' : b'.ReachableInMemory := hb.convert c happly
    have hd : b'.dims = b.dims := c.dims_apply happly
    refine ⟨fun hroom hroom' => ?_, fun hroom => (RoomToCompare.of_allocatable (hd ▸ hroom)).symm,
      fun hdomain hfits hroom => (hroom.symm.of_dims_eq hd hdomain hfits).symm⟩
    rw [ha.checkedMathsEq_of_room hb' hroom', ha.checkedMathsEq_of_room hb hroom,
      ha.wellFormed.mathsEq_apply_right hb.wellFormed happly]
  · have hwf : m.WellFormed := by
      rcases hm with rfl | rfl
      · exact ha.wellFormed
      · exact hb.wellFormed
    rw [hwf.checkedApply_of_allocatable hroom]
    rcases hc with rfl | rfl
    · exact ⟨_, rfl⟩
    · exact ⟨_, rfl⟩

/-- However the promoted sparse sample is converted, the real one equals it. -/
theorem comparison_decided_by_entries_samples :
    (real (.sparse descendingSample)).ReachableInMemory ∧
    (complex (.sparse descendingSample.toComplex)).ReachableInMemory ∧
    (real (.sparse descendingSample)).RoomToCompare (complex (.sparse descendingSample.toComplex)) ∧
    (∀ (c : Conversion) (b : Matrix), c.checkedApply (complex (.sparse descendingSample.toComplex)) = .ok (.ok b) →
      (real (.sparse descendingSample)).checkedMathsEq .default b = .ok true) ∧
    (∃ b, Conversion.toDense.checkedApply (complex (.sparse descendingSample.toComplex)) = .ok (.ok b) ∧
      (real (.sparse descendingSample)).checkedMathsEq .default b = .ok true) ∧
    (real (.sparse tallColumnSample)).ReachableInMemory ∧
    ¬(real (.sparse tallColumnSample)).RoomToCompare (real (.sparse tallColumnSample)) ∧
    (real (.sparse tallColumnSample)).checkedMathsEq .default (real (.sparse tallColumnSample)) =
      .error .capacity := by
  have hreal := reachable_descendingSample
  have hcomplex := hreal.convert .toComplex rfl
  have htall := reachable_tallColumnSample
  have hroom : (real (.sparse descendingSample)).RoomToCompare (complex (.sparse descendingSample.toComplex)) :=
    .of_allocatable (by decide)
  have hnone : ¬(real (.sparse tallColumnSample)).RoomToCompare (real (.sparse tallColumnSample)) := by decide
  obtain ⟨_, _, _, hconvert, hspread⟩ := comparison_decided_by_entries hreal hcomplex .default
  obtain ⟨_, hfail, _⟩ := comparison_decided_by_entries htall htall .default
  have hequal : ∀ (c : Conversion) (b : Matrix),
      c.checkedApply (complex (.sparse descendingSample.toComplex)) = .ok (.ok b) →
      (real (.sparse descendingSample)).checkedMathsEq .default b = .ok true := by
    intro c b h
    obtain ⟨hsame, hkept, _⟩ := hconvert c b h
    exact (hsame hroom (hkept (by decide))).trans (by decide +kernel)
  obtain ⟨b, hb⟩ := hspread .toDense _ (.inl rfl) (.inr rfl) (by decide)
  exact ⟨hreal, hcomplex, hroom, hequal, ⟨b, hb, hequal _ b hb⟩, htall, hnone, hfail hnone⟩

theorem not_checkedMathsEq_tallColumnSample (t : Tolerance) :
    ¬(real (.sparse tallColumnSample)).checkedMathsEq t (real (.sparse tallColumnSample)) = .ok true := by
  have hfail : (real (.sparse tallColumnSample)).checkedMathsEq t (real (.sparse tallColumnSample)) =
    .error .capacity := rfl
  rw [hfail]
  intro h
  cases h

/-- A matrix whose entries are close to themselves at all positions, without an answer. -/
theorem comparison_undecided :
    (real (.sparse tallColumnSample)).ReachableInMemory ∧
    (∀ row < (real (.sparse tallColumnSample)).dims.rows, ∀ col < (real (.sparse tallColumnSample)).dims.cols,
      ∃ x y, (real (.sparse tallColumnSample)).get? row col = some x ∧
        (real (.sparse tallColumnSample)).get? row col = some y ∧
        Tolerance.default.isClose x.promote.re y.promote.re = true ∧
        Tolerance.default.isClose x.promote.im y.promote.im = true) ∧
    ¬(real (.sparse tallColumnSample)).checkedMathsEq .default (real (.sparse tallColumnSample)) = .ok true := by
  have hwf := reachable_tallColumnSample.wellFormed
  have hclose := hwf.mathsEq_of_fuzzyEq (t := .default) hwf (by decide +kernel)
  exact ⟨reachable_tallColumnSample, ((hwf.mathsEq_iff_isClose hwf).mp hclose).2,
    not_checkedMathsEq_tallColumnSample _⟩

/-! ## Three equalities -/

/--
Structural equality implies fuzzy equality but for NaNs, and where there is room for the dense forms, that
implies mathematical equality.
-/
theorem equalities_ordered (ha : a.ReachableInMemory) (hb : b.ReachableInMemory) (t : Tolerance) :
    (a.structEq b = true → (fuzzyEq t a b = true ↔ ∀ x ∈ a.raw, x.isNaN = false)) ∧
    (fuzzyEq t a b = true → (a.RoomToCompare b → a.checkedMathsEq t b = .ok true) ∧
      (¬a.RoomToCompare b → a.checkedMathsEq t b = .error .capacity)) := by
  refine ⟨fuzzyEq_of_structEq, fun h => ⟨fun hroom => ?_, ha.checkedMathsEq_of_no_room hb⟩⟩
  rw [ha.checkedMathsEq_of_room hb hroom, ha.wellFormed.mathsEq_of_fuzzyEq hb.wellFormed h]

/-- A NaN is not close to itself, and a zero of the other sign is close even under a NaN as bound. -/
theorem equalities_ordered_samples :
    (real (.dense signedZeroSample)).ReachableInMemory ∧
    fuzzyEq .default (real (.dense signedZeroSample)) (real (.dense signedZeroSample)) = false ∧
    (real (.sparse descendingSample)).ReachableInMemory ∧
    (real (.sparse { descendingSample with values := [.one, .zero, .one] })).ReachableInMemory ∧
    (real (.sparse descendingSample)).RoomToCompare
      (real (.sparse { descendingSample with values := [.one, .zero, .one] })) ∧
    checkedMathsEq ⟨.nan, .nan⟩ (real (.sparse descendingSample))
      (real (.sparse { descendingSample with values := [.one, .zero, .one] })) = .ok true := by
  have hdense : (real (.dense signedZeroSample)).ReachableInMemory :=
    .build (.real (.denseColumnMajor signedZeroSample.data signedZeroSample.dims)) (by decide) (by decide +kernel)
  have hsparse := reachable_descendingSample
  have hother : (real (.sparse { descendingSample with values := [.one, .zero, .one] })).ReachableInMemory :=
    .build (.real (.sparseBuffers [0, 2, 3] [1, 0, 1] [.one, .zero, .one] ⟨2, 2⟩)) (by decide) (by decide +kernel)
  have hroom : (real (.sparse descendingSample)).RoomToCompare
    (real (.sparse { descendingSample with values := [.one, .zero, .one] })) := .of_allocatable (by decide)
  have hclose : fuzzyEq ⟨.nan, .nan⟩ (real (.sparse descendingSample))
    (real (.sparse { descendingSample with values := [.one, .zero, .one] })) = true := by decide +kernel
  refine ⟨hdense, Bool.eq_false_iff.mpr fun hself => ?_, hsparse, hother, hroom,
    ((equalities_ordered hsparse hother ⟨.nan, .nan⟩).2 hclose).1 hroom⟩
  have hnan := ((equalities_ordered hdense hdense .default).1 (by decide +kernel)).mp hself .nan
  exact absurd (hnan (by decide +kernel)) (by decide)

/-- A matrix that equals itself structurally and fuzzily; mathematically, there is no answer. -/
theorem equalities_unordered :
    (real (.sparse tallColumnSample)).ReachableInMemory ∧
    fuzzyEq .default (real (.sparse tallColumnSample)) (real (.sparse tallColumnSample)) = true ∧
    ¬(real (.sparse tallColumnSample)).checkedMathsEq .default (real (.sparse tallColumnSample)) = .ok true := by
  exact ⟨reachable_tallColumnSample, by decide +kernel, not_checkedMathsEq_tallColumnSample _⟩

/-! ## Comparisons under extreme tolerances -/

/--
Without a positive bound numbers are close if they are equal, and matrices if they are equal part by
part at all positions. Under no bounds a NaN matches anything, or an infinity anything but itself;
under an infinite bound on the distance all finite numbers match. Matrices are compared where there is
room for their dense forms.
-/
theorem extreme_comparisons (t : Tolerance) :
    (t.Degenerate → (∀ x y, t.isClose x y = x.numEq y) ∧
      ∀ a b : Matrix, a.ReachableInMemory → b.ReachableInMemory → a.RoomToCompare b →
        ∃ holds, a.checkedMathsEq t b = .ok holds ∧
          (holds = true ↔ a.dims = b.dims ∧ ∀ row < a.dims.rows, ∀ col < a.dims.cols, ∃ x y,
            a.get? row col = some x ∧ b.get? row col = some y ∧ x.promote.numEq y.promote = true)) ∧
    (∀ x y, x.isNaN = true ∨ y.isNaN = true → t.isClose x y = false) ∧
    (∀ x y, x.isInfinite = true ∨ y.isInfinite = true → (t.isClose x y = true ↔ x = y)) ∧
    (∀ a b : Matrix, a.ReachableInMemory → b.ReachableInMemory → a.RoomToCompare b → ∀ row col,
      a.NaNAt row col ∨ b.NaNAt row col ∨ a.UnlikeAt b row col → a.checkedMathsEq t b = .ok false) ∧
    (∀ a b : Matrix, a.ReachableInMemory → b.ReachableInMemory → ¬a.RoomToCompare b →
      a.checkedMathsEq t b = .error .capacity) ∧
    (t.absolute = .infinity false → ∀ x y, x.IsFinite → y.IsFinite → t.isClose x y = true) := by
  refine ⟨fun ht => ⟨ht.isClose_eq, fun a b ha hb hroom => ?_⟩, fun _ _ => Tolerance.isClose_of_isNaN,
    fun _ _ => Tolerance.isClose_iff_eq, fun a b ha hb hroom row col h => ?_,
    fun a b ha hb => ha.checkedMathsEq_of_no_room hb,
    fun ht _ _ => Tolerance.isClose_of_infinite_absolute ht⟩
  · exact ⟨_, ha.checkedMathsEq_of_room hb hroom, ha.wellFormed.mathsEq_iff_numEq hb.wellFormed ht⟩
  · rw [ha.checkedMathsEq_of_room hb hroom, ha.wellFormed.mathsEq_eq_false hb.wellFormed h]

/-- The stored zero is negative on one side, and the distance of the last two numbers overflows. -/
theorem extreme_comparisons_samples :
    (Tolerance.mk .nan (.infinity true)).Degenerate ∧
    (real (.sparse descendingSample)).ReachableInMemory ∧
    (complex (.dense ⟨⟨2, 2⟩, [.zero, .one, .zero, .one]⟩)).ReachableInMemory ∧
    (real (.sparse descendingSample)).RoomToCompare (complex (.dense ⟨⟨2, 2⟩, [.zero, .one, .zero, .one]⟩)) ∧
    (real (.sparse descendingSample)).checkedMathsEq ⟨.nan, .infinity true⟩
      (complex (.dense ⟨⟨2, 2⟩, [.zero, .one, .zero, .one]⟩)) = .ok true ∧
    (∃ x y, (real (.sparse descendingSample)).get? 0 0 = some x ∧
      (complex (.dense ⟨⟨2, 2⟩, [.zero, .one, .zero, .one]⟩)).get? 0 0 = some y ∧
      x.promote.numEq y.promote = true) ∧
    (complex (.diagonal shortRunSample)).ReachableInMemory ∧
    (complex (.diagonal shortRunSample)).NaNAt 0 0 ∧
    (complex (.diagonal shortRunSample)).RoomToCompare (complex (.diagonal shortRunSample)) ∧
    (complex (.diagonal shortRunSample)).checkedMathsEq ⟨.infinity false, .infinity false⟩
      (complex (.diagonal shortRunSample)) = .ok false ∧
    Tolerance.isClose ⟨.infinity false, .nan⟩ ⟨0x7FEFFFFFFFFFFFFF⟩ ⟨0xFFEFFFFFFFFFFFFF⟩ = true := by
  have ht : (Tolerance.mk .nan (.infinity true)).Degenerate := ⟨.inl (by decide), .inr (by decide)⟩
  have hsparse := reachable_descendingSample
  have hdense : (complex (.dense ⟨⟨2, 2⟩, [.zero, .one, .zero, .one]⟩)).ReachableInMemory :=
    .build (.complex (.denseColumnMajor [.zero, .one, .zero, .one] ⟨2, 2⟩)) (by decide) (by decide +kernel)
  have hdiagonal := reachable_shortRunSample
  have hroom : (real (.sparse descendingSample)).RoomToCompare
    (complex (.dense ⟨⟨2, 2⟩, [.zero, .one, .zero, .one]⟩)) := .of_allocatable (by decide)
  have hself : (complex (.diagonal shortRunSample)).RoomToCompare (complex (.diagonal shortRunSample)) :=
    .of_allocatable (by decide)
  have hequal : (real (.sparse descendingSample)).checkedMathsEq ⟨.nan, .infinity true⟩
      (complex (.dense ⟨⟨2, 2⟩, [.zero, .one, .zero, .one]⟩)) = .ok true := by decide +kernel
  have hnan : (complex (.diagonal shortRunSample)).NaNAt 0 0 := ⟨_, rfl, .inr (by decide)⟩
  obtain ⟨hdegenerate, _⟩ := extreme_comparisons ⟨.nan, .infinity true⟩
  obtain ⟨_, _, _, hunlike, _⟩ := extreme_comparisons ⟨.infinity false, .infinity false⟩
  obtain ⟨_, _, _, _, _, hfinite⟩ := extreme_comparisons ⟨.infinity false, .nan⟩
  obtain ⟨holds, hanswer, hentries⟩ := (hdegenerate ht).2 _ _ hsparse hdense hroom
  obtain rfl := Except.ok.inj (hequal.symm.trans hanswer)
  exact ⟨ht, hsparse, hdense, hroom, hequal, (hentries.mp rfl).2 0 (by decide) 0 (by decide), hdiagonal, hnan,
    hself, hunlike _ _ hdiagonal hdiagonal hself 0 0 (.inl hnan),
    hfinite rfl _ _ (by unfold Binary64.IsFinite; decide) (by unfold Binary64.IsFinite; decide)⟩

/-- Under negative bounds a matrix equals itself part by part, and there is no answer. -/
theorem extreme_comparisons_fail :
    (Tolerance.mk ⟨0xBFF0000000000000⟩ ⟨0xBFF0000000000000⟩).Degenerate ∧
    (real (.sparse tallColumnSample)).ReachableInMemory ∧
    (∀ row < (real (.sparse tallColumnSample)).dims.rows, ∀ col < (real (.sparse tallColumnSample)).dims.cols,
      ∃ x y, (real (.sparse tallColumnSample)).get? row col = some x ∧
        (real (.sparse tallColumnSample)).get? row col = some y ∧ x.promote.numEq y.promote = true) ∧
    ¬(real (.sparse tallColumnSample)).checkedMathsEq ⟨⟨0xBFF0000000000000⟩, ⟨0xBFF0000000000000⟩⟩
      (real (.sparse tallColumnSample)) = .ok true := by
  have ht : (Tolerance.mk ⟨0xBFF0000000000000⟩ ⟨0xBFF0000000000000⟩).Degenerate :=
    ⟨.inr (by decide), .inr (by decide)⟩
  have hwf := reachable_tallColumnSample.wellFormed
  have hequal := hwf.mathsEq_of_fuzzyEq (t := ⟨⟨0xBFF0000000000000⟩, ⟨0xBFF0000000000000⟩⟩) hwf
    (by decide +kernel)
  exact ⟨ht, reachable_tallColumnSample, ((hwf.mathsEq_iff_numEq hwf ht).mp hequal).2,
    not_checkedMathsEq_tallColumnSample _⟩

end Matrix

end StoredMatrix
