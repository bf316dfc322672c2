import StoredMatrix.Proofs.CheckedArithmetic
import StoredMatrix.Proofs.RefusedBuffers

/-!
# Contiguous runs

A list has contiguous entries if no zero stands between two entries that are not zero, or in other words
if it consists of zeros, then entries that are not zero, then zeros. The scans that decide it find
the ends of the run, and look at what stands between them. Reversing a list and adding zeros at its ends
changes nothing.
-/

namespace StoredMatrix

variable {α : Type}

/-! ## Places -/

section Places

variable {p : α → Bool} {xs before after : List α} {i : Nat}

/-- The positions of the entries that a test holds of. -/
def places (p : α → Bool) (xs : List α) : Set Nat := {i | ∃ a, xs[i]? = some a ∧ p a = true}

theorem mem_places : i ∈ places p xs ↔ ∃ a, xs[i]? = some a ∧ p a = true := Iff.rfl

theorem lt_length_of_mem_places (h : i ∈ places p xs) : i < xs.length := by
  obtain ⟨a, ha, _⟩ := h
  exact (List.getElem?_eq_some_iff.mp ha).1

theorem mem_places_reverse (h : i < xs.length) :
    i ∈ places p xs.reverse ↔ xs.length - 1 - i ∈ places p xs := by
  rw [mem_places, mem_places, List.getElem?_reverse h]

/-- What stands around a list shifts the places of its entries. -/
theorem add_mem_places_iff (h : i < xs.length) :
    before.length + i ∈ places p (before ++ xs ++ after) ↔ i ∈ places p xs := by
  rw [mem_places, mem_places, List.append_assoc, List.getElem?_append_right (Nat.le_add_right _ _),
    Nat.add_sub_cancel_left, List.getElem?_append_left h]

/-- The first place is found from the front. -/
theorem findIdx?_eq_some_iff_isLeast : xs.findIdx? p = some i ↔ IsLeast (places p xs) i := by
  rw [List.findIdx?_eq_some_iff_getElem]
  constructor
  · rintro ⟨hi, hp, hbefore⟩
    refine ⟨⟨_, List.getElem?_eq_getElem hi, hp⟩, ?_⟩
    rintro j ⟨b, hb, hpb⟩
    obtain ⟨_, rfl⟩ := List.getElem?_eq_some_iff.mp hb
    exact Nat.le_of_not_lt fun hlt => hbefore j hlt hpb
  · rintro ⟨⟨a, ha, hpa⟩, hleast⟩
    obtain ⟨hi, rfl⟩ := List.getElem?_eq_some_iff.mp ha
    refine ⟨hi, hpa, fun j hlt hpj => ?_⟩
    exact Nat.not_le_of_lt hlt (hleast ⟨_, List.getElem?_eq_getElem (hlt.trans hi), hpj⟩)

theorem isGreatest_places_iff (h : i < xs.length) :
    IsGreatest (places p xs) i ↔ IsLeast (places p xs.reverse) (xs.length - 1 - i) := by
  have hmem : ∀ j < xs.length, xs.length - 1 - j ∈ places p xs.reverse ↔ j ∈ places p xs := by
    intro j hj
    rw [mem_places_reverse (by omega), show xs.length - 1 - (xs.length - 1 - j) = j by omega]
  refine and_congr (hmem i h).symm ⟨fun hgreatest j hj => ?_, fun hleast j hj => ?_⟩
  · have hlt := lt_length_of_mem_places hj
    rw [List.length_reverse] at hlt
    have hle := hgreatest ((mem_places_reverse hlt).mp hj)
    omega
  · have hlt := lt_length_of_mem_places hj
    have hle := hleast ((hmem j hlt).mpr hj)
    omega

end Places

variable [Entry α] {xs before run after : List α} {i j k first last : Nat}

theorem mem_zeroPlaces_iff (h : i < xs.length) :
    i ∈ places Entry.isZero xs ↔ i ∉ places Entry.isNonzero xs := by
  simp only [mem_places, List.getElem?_eq_getElem h, Option.some.injEq, exists_eq_left', Entry.isNonzero,
    Bool.not_eq_true', Bool.not_eq_false]

/-! ## The ends of the run -/

/-- The first and the last entry that are not zero stand at the given positions. -/
structure Ends (xs : List α) (first last : Nat) : Prop where
  isLeast : IsLeast (places Entry.isNonzero xs) first
  isGreatest : IsGreatest (places Entry.isNonzero xs) last

theorem lastNonzero?_eq_some : lastNonzero? xs = some i ↔ IsGreatest (places Entry.isNonzero xs) i := by
  simp only [lastNonzero?, firstNonzero?, Option.map_eq_some_iff, findIdx?_eq_some_iff_isLeast]
  constructor
  · rintro ⟨m, hleast, rfl⟩
    have hlt := lt_length_of_mem_places hleast.1
    rw [List.length_reverse] at hlt
    refine (isGreatest_places_iff (by omega)).mpr ?_
    rwa [show xs.length - 1 - (xs.length - 1 - m) = m by omega]
  · intro hgreatest
    have hlt := lt_length_of_mem_places hgreatest.1
    exact ⟨_, (isGreatest_places_iff hlt).mp hgreatest, by omega⟩

theorem ends_iff : Ends xs first last ↔ firstNonzero? xs = some first ∧ lastNonzero? xs = some last := by
  rw [firstNonzero?, findIdx?_eq_some_iff_isLeast, lastNonzero?_eq_some]
  exact ⟨fun h => ⟨h.isLeast, h.isGreatest⟩, fun h => ⟨h.1, h.2⟩⟩

theorem firstNonzero?_eq_none : firstNonzero? xs = none ↔ ∀ a ∈ xs, Entry.isZero a = true := by
  simp only [firstNonzero?, List.findIdx?_eq_none_iff, Entry.isNonzero, Bool.not_eq_false']

theorem exists_ends (h : ¬∀ a ∈ xs, Entry.isZero a = true) : ∃ first last, Ends xs first last := by
  have hreverse : ¬∀ a ∈ xs.reverse, Entry.isZero a = true := by
    simpa only [List.mem_reverse] using h
  obtain ⟨first, hfirst⟩ := Option.ne_none_iff_exists'.mp (mt firstNonzero?_eq_none.mp h)
  obtain ⟨fromEnd, hlast⟩ := Option.ne_none_iff_exists'.mp (mt firstNonzero?_eq_none.mp hreverse)
  exact ⟨first, _, ends_iff.mpr ⟨hfirst, Option.map_eq_some_iff.mpr ⟨fromEnd, hlast, rfl⟩⟩⟩

omit [Entry α] in
theorem getElem?_segment :
    (segment xs first last)[i]? = if first + i < last + 1 then xs[first + i]? else none := by
  rw [segment, List.getElem?_drop, List.getElem?_take]

namespace Ends

variable (h : Ends xs first last)

include h

theorem le : first ≤ last := h.isLeast.2 h.isGreatest.1

theorem last_lt : last < xs.length := lt_length_of_mem_places h.isGreatest.1

theorem isZero_of_outside {a : α} (ha : xs[i]? = some a) (hout : i < first ∨ last < i) :
    Entry.isZero a = true := by
  by_contra hnz
  have hmem : i ∈ places Entry.isNonzero xs := ⟨a, ha, congrArg not (Bool.eq_false_iff.mpr hnz)⟩
  have hle := h.isLeast.2 hmem
  have hle' := h.isGreatest.2 hmem
  omega

theorem isZero_of_mem_take {a : α} (ha : a ∈ xs.take first) : Entry.isZero a = true := by
  obtain ⟨i, hi, rfl⟩ := List.mem_take_iff_getElem.mp ha
  exact h.isZero_of_outside (List.getElem?_eq_getElem (by omega)) (.inl (by omega))

theorem isZero_of_mem_drop {a : α} (ha : a ∈ xs.drop (last + 1)) : Entry.isZero a = true := by
  obtain ⟨i, hi, rfl⟩ := List.mem_drop_iff_getElem.mp ha
  exact h.isZero_of_outside (List.getElem?_eq_getElem (by omega)) (.inr (by omega))

/-- The list is cut before the first and after the last entry that is not zero. -/
theorem append_segment : xs.take first ++ segment xs first last ++ xs.drop (last + 1) = xs := by
  have hle := h.le
  have htake : xs.take first = (xs.take (last + 1)).take first := by
    rw [List.take_take, Nat.min_eq_left (by omega)]
  rw [htake, segment, List.take_append_drop, List.take_append_drop]

theorem length_segment : (segment xs first last).length = last - first + 1 := by
  have hle := h.le
  have hlt := h.last_lt
  rw [segment, List.length_drop, List.length_take]
  omega

theorem all_segment : (segment xs first last).all Entry.isNonzero = true ↔
    ∀ j, first ≤ j → j ≤ last → j ∈ places Entry.isNonzero xs := by
  rw [List.all_eq_true]
  constructor
  · intro hall j hfirst hlast
    have hj : j < xs.length := Nat.lt_of_le_of_lt hlast h.last_lt
    refine ⟨xs[j], List.getElem?_eq_getElem hj, hall _ (List.mem_of_getElem? (i := j - first) ?_)⟩
    rw [getElem?_segment, Nat.add_sub_cancel' hfirst, if_pos (Nat.lt_succ_of_le hlast),
      List.getElem?_eq_getElem hj]
  · intro hall a ha
    obtain ⟨i, hi⟩ := List.mem_iff_getElem?.mp ha
    rw [getElem?_segment, Option.ite_none_right_eq_some] at hi
    obtain ⟨hlt, hi⟩ := hi
    obtain ⟨b, hb, hnz⟩ := hall (first + i) (Nat.le_add_right _ _) (Nat.le_of_lt_succ hlt)
    rwa [Option.some.inj (hi.symm.trans hb)]

/-- What is not zero stands within the run. -/
theorem countNonzero_eq : countNonzero xs = countNonzero (segment xs first last) := by
  have hzero : ∀ ys : List α, (∀ a ∈ ys, Entry.isZero a = true) → ys.countP Entry.isNonzero = 0 := by
    intro ys hys
    refine List.countP_eq_zero.mpr fun a ha => ?_
    rw [Entry.isNonzero, hys a ha]
    exact Bool.false_ne_true
  conv => lhs; rw [← h.append_segment]
  rw [countNonzero, List.countP_append, List.countP_append, hzero _ fun _ => h.isZero_of_mem_take,
    hzero _ fun _ => h.isZero_of_mem_drop, Nat.zero_add, Nat.add_zero, countNonzero]

theorem hasContiguousEntries_eq :
    hasContiguousEntries xs = (segment xs first last).all Entry.isNonzero := by
  obtain ⟨hfirst, hlast⟩ := ends_iff.mp h
  rw [hasContiguousEntries, hfirst, hlast]

/-- There are as many entries that are not zero as there is room for between the ends. -/
theorem hasContiguousEntries_iff_count :
    hasContiguousEntries xs = true ↔ countNonzero xs = last - first + 1 := by
  rw [h.hasContiguousEntries_eq, h.countNonzero_eq, ← h.length_segment, countNonzero,
    List.countP_eq_length, List.all_eq_true]

end Ends

theorem hasContiguousEntries_of_isZero (h : ∀ a ∈ xs, Entry.isZero a = true) :
    hasContiguousEntries xs = true := by
  rw [hasContiguousEntries, firstNonzero?_eq_none.mpr h]

/-! ## Gaps -/

/-- A zero stands between two entries that are not zero. -/
structure Gap (xs : List α) (i j k : Nat) : Prop where
  lt_left : i < j
  lt_right : j < k
  left : i ∈ places Entry.isNonzero xs
  zero : j ∈ places Entry.isZero xs
  right : k ∈ places Entry.isNonzero xs

theorem Gap.append (h : Gap xs i j k) :
    Gap (before ++ xs ++ after) (before.length + i) (before.length + j) (before.length + k) where
  lt_left := Nat.add_lt_add_left h.lt_left _
  lt_right := Nat.add_lt_add_left h.lt_right _
  left := (add_mem_places_iff (lt_length_of_mem_places h.left)).mpr h.left
  zero := (add_mem_places_iff (lt_length_of_mem_places h.zero)).mpr h.zero
  right := (add_mem_places_iff (lt_length_of_mem_places h.right)).mpr h.right

theorem hasContiguousEntries_iff_gap : hasContiguousEntries xs = true ↔ ∀ i j k, ¬Gap xs i j k := by
  by_cases hzero : ∀ a ∈ xs, Entry.isZero a = true
  · refine iff_of_true (hasContiguousEntries_of_isZero hzero) fun i j k hgap => ?_
    obtain ⟨a, ha, hnz⟩ := hgap.left
    rw [Entry.isNonzero, hzero a (List.mem_of_getElem? ha)] at hnz
    cases hnz
  · obtain ⟨first, last, hends⟩ := exists_ends hzero
    rw [hends.hasContiguousEntries_eq, hends.all_segment]
    constructor
    · intro hall i j k hgap
      have hfirst := Nat.le_trans (hends.isLeast.2 hgap.left) (Nat.le_of_lt hgap.lt_left)
      have hlast := Nat.le_trans (Nat.le_of_lt hgap.lt_right) (hends.isGreatest.2 hgap.right)
      exact (mem_zeroPlaces_iff (lt_length_of_mem_places hgap.zero)).mp hgap.zero (hall j hfirst hlast)
    · intro hgap j hfirst hlast
      by_contra hj
      -- the ends themselves are not zero, so the place lies strictly between them
      have hne : first ≠ j := fun he => hj (he ▸ hends.isLeast.1)
      have hne' : j ≠ last := fun he => hj (he ▸ hends.isGreatest.1)
      have hz := (mem_zeroPlaces_iff (Nat.lt_of_le_of_lt hlast hends.last_lt)).mpr hj
      exact hgap first j last ⟨by omega, by omega, hends.isLeast.1, hz, hends.isGreatest.1⟩

/-! ## Zeros around a run -/

/-- Zeros, then entries that are not zero, then zeros. -/
structure RunAmongZeros (before run after : List α) : Prop where
  isZero_before : ∀ a ∈ before, Entry.isZero a = true
  isNonzero_run : ∀ a ∈ run, Entry.isNonzero a = true
  isZero_after : ∀ a ∈ after, Entry.isZero a = true

namespace RunAmongZeros

theorem reverse (h : RunAmongZeros before run after) :
    RunAmongZeros after.reverse run.reverse before.reverse where
  isZero_before a ha := h.isZero_after a (List.mem_reverse.mp ha)
  isNonzero_run a ha := h.isNonzero_run a (List.mem_reverse.mp ha)
  isZero_after a ha := h.isZero_before a (List.mem_reverse.mp ha)

theorem append {zeros zeros' : List α} (h : RunAmongZeros before run after)
    (hzeros : ∀ a ∈ zeros, Entry.isZero a = true) (hzeros' : ∀ a ∈ zeros', Entry.isZero a = true) :
    RunAmongZeros (zeros ++ before) run (after ++ zeros') where
  isZero_before a ha := (List.mem_append.mp ha).elim (hzeros a) (h.isZero_before a)
  isNonzero_run := h.isNonzero_run
  isZero_after a ha := (List.mem_append.mp ha).elim (h.isZero_after a) (hzeros' a)

theorem bounds (h : RunAmongZeros before run after)
    (hi : i ∈ places Entry.isNonzero (before ++ run ++ after)) :
    before.length ≤ i ∧ i < before.length + run.length := by
  obtain ⟨a, ha, hnz⟩ := hi
  have hout : ¬(a ∈ before ∨ a ∈ after) := by
    rintro (hmem | hmem)
    · rw [Entry.isNonzero, h.isZero_before a hmem] at hnz
      cases hnz
    · rw [Entry.isNonzero, h.isZero_after a hmem] at hnz
      cases hnz
  constructor
  · refine Nat.le_of_not_lt fun hlt => hout (.inl (List.mem_of_getElem? (i := i) ?_))
    rwa [List.append_assoc, List.getElem?_append_left hlt] at ha
  · refine Nat.lt_of_not_le fun hle => hout (.inr ?_)
    rw [List.getElem?_append_right (by rwa [List.length_append])] at ha
    exact List.mem_of_getElem? ha

theorem not_gap (h : RunAmongZeros before run after) : ¬Gap (before ++ run ++ after) i j k := by
  intro hgap
  obtain ⟨hfirst, _⟩ := h.bounds hgap.left
  obtain ⟨_, hlast⟩ := h.bounds hgap.right
  have hleft := hgap.lt_left
  have hright := hgap.lt_right
  obtain ⟨j, rfl⟩ := Nat.exists_eq_add_of_le (show before.length ≤ j by omega)
  obtain ⟨a, ha, hz⟩ := (add_mem_places_iff (by omega)).mp hgap.zero
  have hnz := h.isNonzero_run a (List.mem_of_getElem? ha)
  rw [Entry.isNonzero, hz] at hnz
  cases hnz

end RunAmongZeros

/-- The lists with contiguous entries are a run among zeros. -/
theorem hasContiguousEntries_iff_run :
    hasContiguousEntries xs = true ↔
      ∃ before run after, RunAmongZeros before run after ∧ before ++ run ++ after = xs := by
  constructor
  · intro h
    by_cases hzero : ∀ a ∈ xs, Entry.isZero a = true
    · exact ⟨xs, [], [], ⟨hzero, nofun, nofun⟩, by rw [List.append_nil, List.append_nil]⟩
    · obtain ⟨first, last, hends⟩ := exists_ends hzero
      rw [hends.hasContiguousEntries_eq, List.all_eq_true] at h
      exact ⟨_, _, _, ⟨fun _ => hends.isZero_of_mem_take, h, fun _ => hends.isZero_of_mem_drop⟩,
        hends.append_segment⟩
  · rintro ⟨before, run, after, hrun, rfl⟩
    exact hasContiguousEntries_iff_gap.mpr fun i j k => hrun.not_gap

theorem hasContiguousEntries_reverse (xs : List α) :
    hasContiguousEntries xs.reverse = hasContiguousEntries xs := by
  have hreverse : ∀ ys : List α, hasContiguousEntries ys = true → hasContiguousEntries ys.reverse = true := by
    intro ys hys
    obtain ⟨before, run, after, hrun, rfl⟩ := hasContiguousEntries_iff_run.mp hys
    refine hasContiguousEntries_iff_run.mpr ⟨_, _, _, hrun.reverse, ?_⟩
    rw [List.reverse_append, List.reverse_append, List.append_assoc]
  refine Bool.eq_iff_iff.mpr ⟨fun h => ?_, hreverse xs⟩
  rw [← xs.reverse_reverse]
  exact hreverse _ h

theorem hasContiguousEntries_append (hbefore : ∀ a ∈ before, Entry.isZero a = true)
    (hafter : ∀ a ∈ after, Entry.isZero a = true) :
    hasContiguousEntries (before ++ xs ++ after) = hasContiguousEntries xs := by
  refine Bool.eq_iff_iff.mpr ⟨fun h => ?_, fun h => ?_⟩
  · rw [hasContiguousEntries_iff_gap] at h ⊢
    exact fun i j k hgap => h _ _ _ hgap.append
  · obtain ⟨before', run, after', hrun, rfl⟩ := hasContiguousEntries_iff_run.mp h
    refine hasContiguousEntries_iff_run.mpr ⟨_, _, _, hrun.append hbefore hafter, ?_⟩
    simp only [List.append_assoc]

theorem hasContiguousEntries_iff_count : hasContiguousEntries xs = true ↔
    (∀ a ∈ xs, Entry.isZero a = true) ∨
      ∃ first last, Ends xs first last ∧ countNonzero xs = last - first + 1 := by
  constructor
  · intro h
    refine or_iff_not_imp_left.mpr fun hzero => ?_
    obtain ⟨first, last, hends⟩ := exists_ends hzero
    exact ⟨first, last, hends, hends.hasContiguousEntries_iff_count.mp h⟩
  · rintro (hzero | ⟨first, last, hends, hcount⟩)
    · exact hasContiguousEntries_of_isZero hzero
    · exact hends.hasContiguousEntries_iff_count.mpr hcount

/-! ## The slice between the ends -/

/-- The scans with the slice between the ends cut out by checked steps. -/
def checkedContiguous (xs : List α) : Except Fault Bool :=
  match firstNonzero? xs with
  | none => .ok true
  | some first => do
    let last := (lastNonzero? xs).getD first
    let stop ← Checked.add last 1
    let run ← Checked.slice xs first stop
    return run.all Entry.isNonzero

/-- The ends stand within the list and in order, so the slice exists. -/
theorem checkedContiguous_eq (h : xs.length < wordLimit) :
    checkedContiguous xs = .ok (hasContiguousEntries xs) := by
  by_cases hzero : ∀ a ∈ xs, Entry.isZero a = true
  · rw [checkedContiguous, firstNonzero?_eq_none.mpr hzero, hasContiguousEntries_of_isZero hzero]
  · obtain ⟨first, last, hends⟩ := exists_ends hzero
    obtain ⟨hfirst, hlast⟩ := ends_iff.mp hends
    have hle := hends.le
    have hlt := hends.last_lt
    have hstop : Checked.add last 1 = .ok (last + 1) := Checked.add_eq_ok.mpr ⟨by omega, rfl⟩
    have hrun : Checked.slice xs first (last + 1) = .ok (segment xs first last) :=
      Checked.slice_eq_ok.mpr ⟨⟨by omega, by omega⟩, by rw [segment, List.drop_take]⟩
    simp only [checkedContiguous, hfirst, hlast, Option.getD_some, bind_eq_ok, pure_eq_ok]
    exact ⟨last + 1, hstop, _, hrun, hends.hasContiguousEntries_eq.symm⟩

/-! ## All ways to say it -/

/--
A list has contiguous entries if no zero stands between two entries that are not zero, if it is a run
among zeros, or if it has as many entries that are not zero as there are positions from the first of them
to the last. Neither reversing it nor zeros at its ends matter, and the slice that is inspected exists.
-/
theorem contiguous_entries_decided (xs before after : List α) :
    (hasContiguousEntries xs = true ↔ ¬∃ i j k, Gap xs i j k) ∧
    (hasContiguousEntries xs = true ↔
      ∃ zeros run zeros', RunAmongZeros zeros run zeros' ∧ zeros ++ run ++ zeros' = xs) ∧
    (hasContiguousEntries xs = true ↔ (∀ a ∈ xs, Entry.isZero a = true) ∨
      ∃ first last, Ends xs first last ∧ countNonzero xs = last - first + 1) ∧
    hasContiguousEntries xs.reverse = hasContiguousEntries xs ∧
    ((∀ a ∈ before, Entry.isZero a = true) → (∀ a ∈ after, Entry.isZero a = true) →
      hasContiguousEntries (before ++ xs ++ after) = hasContiguousEntries xs) ∧
    (∀ first last, firstNonzero? xs = some first → lastNonzero? xs = some last →
      first ≤ last ∧ last < xs.length) ∧
    (xs.length < wordLimit → checkedContiguous xs = .ok (hasContiguousEntries xs)) := by
  refine ⟨?_, hasContiguousEntries_iff_run, hasContiguousEntries_iff_count, hasContiguousEntries_reverse xs,
    hasContiguousEntries_append, fun first last hfirst hlast => ?_, checkedContiguous_eq⟩
  · simp only [hasContiguousEntries_iff_gap, not_exists]
  · have hends := ends_iff.mpr ⟨hfirst, hlast⟩
    exact ⟨hends.le, hends.last_lt⟩

/-- A NaN belongs to the run, a negative zero interrupts it. -/
theorem contiguous_entries_decided_samples :
    hasContiguousEntries [.zero, .nan, Binary64.one, .zero] = true ∧
    hasContiguousEntries ([⟨0x8000000000000000⟩] ++ [.zero, .nan, Binary64.one, .zero] ++ [.zero]) = true ∧
    checkedContiguous [.zero, .nan, Binary64.one, .zero] = .ok true ∧
    (1 ≤ 2 ∧ 2 < [.zero, .nan, Binary64.one, .zero].length) ∧
    hasContiguousEntries [.nan, ⟨0x8000000000000000⟩, Binary64.one] = false := by
  obtain ⟨_, _, _, _, happend, hends, hchecked⟩ := contiguous_entries_decided
    [.zero, .nan, Binary64.one, .zero] [⟨0x8000000000000000⟩] [.zero]
  obtain ⟨hgap, _⟩ := contiguous_entries_decided [.nan, ⟨0x8000000000000000⟩, Binary64.one] [] []
  have hrun : hasContiguousEntries [.zero, .nan, Binary64.one, .zero] = true := by decide
  refine ⟨hrun, (happend (by decide) (by decide)).trans hrun, (hchecked (by decide)).trans ?_,
    hends 1 2 (by decide) (by decide), ?_⟩
  · rw [hrun]
  · rw [Bool.eq_false_iff, ne_eq, hgap, not_not]
    exact ⟨0, 1, 2, by decide, by decide, ⟨_, rfl, by decide⟩, ⟨_, rfl, by decide⟩, ⟨_, rfl, by decide⟩⟩

end StoredMatrix
