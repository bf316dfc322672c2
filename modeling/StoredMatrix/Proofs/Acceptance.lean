import StoredMatrix.Grid.Basic

/-!
# Accepted input

A constructor is a sequence of checks that ends in a matrix. What it accepts is read off by taking
the sequence apart: the checks on dimensions and on the rows of a grid are opened here once.
-/

namespace StoredMatrix

/-! ## Sequences of checks -/

section Sequence

variable {ε β γ : Type}

@[simp] theorem bind_eq_ok {x : Except ε β} {f : β → Except ε γ} {c : γ} :
    x >>= f = .ok c ↔ ∃ b, x = .ok b ∧ f b = .ok c := by
  cases x with
  | error e => exact ⟨nofun, nofun⟩
  | ok b =>
      refine ⟨fun h => ⟨b, rfl, h⟩, ?_⟩
      rintro ⟨_, hb, h⟩
      cases hb
      exact h

@[simp] theorem map_eq_ok {x : Except ε β} {f : β → γ} {c : γ} :
    f <$> x = .ok c ↔ ∃ b, x = .ok b ∧ f b = c := by
  cases x with
  | error e => exact ⟨nofun, nofun⟩
  | ok b =>
      refine ⟨fun h => ⟨b, rfl, Except.ok.inj h⟩, ?_⟩
      rintro ⟨_, hb, rfl⟩
      cases hb
      rfl

theorem of_map_eq_ok {P : γ → Prop} {x : Except ε β} {f : β → γ} {c : γ} (h : f <$> x = .ok c)
    (hP : ∀ b, x = .ok b → P (f b)) : P c := by
  obtain ⟨b, hb, rfl⟩ := map_eq_ok.mp h
  exact hP b hb

theorem map_map_of_eq_ok {δ : Type} {x : Except ε β} {f : γ → δ} {g : β → γ} {b : β} (h : x = .ok b) :
    f <$> g <$> x = .ok (f (g b)) := by
  rw [h]
  rfl

@[simp] theorem pure_eq_ok {b c : β} : (pure b : Except ε β) = .ok c ↔ b = c :=
  ⟨Except.ok.inj, congrArg Except.ok⟩

@[simp] theorem ensure_eq_ok {condition : Bool} {error : Error} {u : Unit} :
    ensure condition error = .ok u ↔ condition = true := by
  cases condition with
  | false => exact ⟨nofun, nofun⟩
  | true => exact ⟨fun _ => rfl, fun _ => rfl⟩

@[simp] theorem bind_eq_error {x : Except ε β} {f : β → Except ε γ} {e : ε} :
    x >>= f = .error e ↔ x = .error e ∨ ∃ b, x = .ok b ∧ f b = .error e := by
  cases x with
  | error e' =>
      constructor
      · intro h
        cases h
        exact .inl rfl
      · rintro (h | ⟨_, hb, _⟩)
        · cases h
          rfl
        · cases hb
  | ok b =>
      refine ⟨fun h => .inr ⟨b, rfl, h⟩, ?_⟩
      rintro (h | ⟨_, hb, h⟩)
      · cases h
      · cases hb
        exact h

@[simp] theorem pure_ne_error {b : β} {e : ε} : (pure b : Except ε β) ≠ .error e := nofun

@[simp] theorem ensure_eq_error {condition : Bool} {error e : Error} :
    ensure condition error = .error e ↔ condition = false ∧ error = e := by
  cases condition with
  | false => exact ⟨fun h => ⟨rfl, Except.error.inj h⟩, fun h => congrArg Except.error h.2⟩
  | true => exact ⟨nofun, nofun⟩

end Sequence

/-! ## Dimensions -/

/-- There is at least one position. -/
structure Dims.Positive (d : Dims) : Prop where
  rows_pos : 0 < d.rows
  cols_pos : 0 < d.cols

theorem Dims.checkedCount_eq_ok {arg : String} {d : Dims} {n : Nat} :
    d.checkedCount arg = .ok n ↔ d.Positive ∧ d.count < wordLimit ∧ n = d.count := by
  simp only [Dims.checkedCount, bind_eq_ok, ensure_eq_ok, pure_eq_ok, decide_eq_true_eq, exists_const]
  constructor
  · rintro ⟨hr, hc, hn, rfl⟩
    exact ⟨⟨Nat.pos_of_ne_zero hr, Nat.pos_of_ne_zero hc⟩, hn, rfl⟩
  · rintro ⟨hp, hn, rfl⟩
    exact ⟨Nat.ne_of_gt hp.rows_pos, Nat.ne_of_gt hp.cols_pos, hn, rfl⟩

theorem Dims.checkedCount_bind_eq_ok {β : Type} {arg : String} {d : Dims} {f : Nat → Except Error β} {b : β} :
    d.checkedCount arg >>= f = .ok b ↔ d.Positive ∧ d.count < wordLimit ∧ f d.count = .ok b := by
  simp only [bind_eq_ok, Dims.checkedCount_eq_ok]
  constructor
  · rintro ⟨_, ⟨hp, hn, rfl⟩, hb⟩
    exact ⟨hp, hn, hb⟩
  · rintro ⟨hp, hn, hb⟩
    exact ⟨_, ⟨hp, hn, rfl⟩, hb⟩

namespace Grid

variable {α β : Type}

theorem firstRaggedRow?_eq_none {first : List α} {rest : Grid α} :
    firstRaggedRow? (first :: rest) = none ↔ ∀ row ∈ first :: rest, row.length = first.length := by
  simp only [firstRaggedRow?, Option.map_eq_none_iff, List.find?_eq_none, decide_eq_true_eq, Decidable.not_not]
  conv => rhs; rw [← List.zipIdx_map_fst 0 (first :: rest), List.forall_mem_map]

/-- A grid has dimensions if it has rows, and all of them one positive length. -/
theorem dims_eq_ok {arg : String} {g : Grid α} {d : Dims} :
    g.dims arg = .ok d ↔ g.length = d.rows ∧ d.Positive ∧ ∀ row ∈ g, row.length = d.cols := by
  cases g with
  | nil =>
      refine ⟨nofun, fun ⟨h, hp, _⟩ => ?_⟩
      exact absurd h (Nat.ne_of_lt hp.rows_pos)
  | cons first rest =>
      simp only [dims, List.head?_cons]
      cases hragged : firstRaggedRow? (first :: rest) with
      | some defect =>
          refine ⟨nofun, fun ⟨_, _, h⟩ => ?_⟩
          have heven := firstRaggedRow?_eq_none.mpr fun row hrow =>
            (h row hrow).trans (h first List.mem_cons_self).symm
          rw [hragged] at heven
          cases heven
      | none =>
          have heven := firstRaggedRow?_eq_none.mp hragged
          simp only [bind_eq_ok, ensure_eq_ok, pure_eq_ok, decide_eq_true_eq, exists_const]
          constructor
          · rintro ⟨hc, rfl⟩
            exact ⟨rfl, ⟨Nat.succ_pos _, Nat.pos_of_ne_zero hc⟩, heven⟩
          · rintro ⟨hl, hp, h⟩
            have hf : first.length = d.cols := h first List.mem_cons_self
            exact ⟨hf ▸ Nat.ne_of_gt hp.cols_pos, by rw [hl, hf]⟩

theorem pairedDims_eq_ok {arg otherArg : String} {g : Grid α} {other : Grid β} {d : Dims} :
    g.pairedDims arg otherArg other = .ok d ↔ g.dims arg = .ok d ∧ other.dims otherArg = .ok d := by
  simp only [pairedDims, bind_eq_ok, ensure_eq_ok, pure_eq_ok, decide_eq_true_eq, exists_const]
  constructor
  · rintro ⟨expected, hg, got, ho, hr, hc, rfl⟩
    cases expected
    cases got
    cases hr
    cases hc
    exact ⟨hg, ho⟩
  · rintro ⟨hg, ho⟩
    exact ⟨d, hg, d, ho, rfl, rfl, rfl⟩

theorem length_flatten_of_forall {g : Grid α} {n : Nat} (h : ∀ row ∈ g, row.length = n) :
    g.flatten.length = g.length * n := by
  induction g with
  | nil => simp
  | cons row g ih =>
      rw [List.flatten_cons, List.length_append, h row List.mem_cons_self,
        ih fun r hr => h r (List.mem_cons_of_mem row hr), List.length_cons, Nat.succ_mul, Nat.add_comm]

theorem elementCount_eq {arg : String} {g : Grid α} {d : Dims} (h : g.dims arg = .ok d) :
    g.elementCount = d.count := by
  obtain ⟨hl, _, hrow⟩ := dims_eq_ok.mp h
  rw [elementCount, length_flatten_of_forall hrow, hl, Dims.count]

end Grid

end StoredMatrix
