import StoredMatrix.Checked
import StoredMatrix.Proofs.Acceptance

/-!
# Checked arithmetic

When a checked step goes well, and what it yields then. A loop of checked steps goes well if each
turn does; it comes to what the loop without checks comes to.
-/

namespace StoredMatrix

namespace Checked

variable {β : Type}

/-! ## When a step goes well -/

variable {a b c i n count bytes start stop : Nat} {pointer : Int} {xs ys : List β} {x : β}

@[simp] theorem require_eq_ok {condition : Bool} {fault : Fault} {u : Unit} :
    require condition fault = .ok u ↔ condition = true := by
  cases condition with
  | false => exact ⟨nofun, nofun⟩
  | true => exact ⟨fun _ => rfl, fun _ => rfl⟩

@[simp] theorem add_eq_ok : add a b = .ok c ↔ a + b < wordLimit ∧ a + b = c := by
  simp [add]

@[simp] theorem mul_eq_ok : mul a b = .ok c ↔ a * b < wordLimit ∧ a * b = c := by
  simp [mul]

@[simp] theorem toWord_eq_ok : toWord pointer = .ok n ↔ n < wordLimit ∧ pointer = n := by
  simp only [toWord, bind_eq_ok, require_eq_ok, pure_eq_ok, decide_eq_true_eq, exists_const]
  omega

@[simp] theorem toPointer_eq_ok : toPointer n = .ok pointer ↔ n < signedLimit ∧ (n : Int) = pointer := by
  simp [toPointer]

@[simp] theorem allocate_eq_ok {u : Unit} : allocate count bytes = .ok u ↔ count * bytes < signedLimit := by
  simp [allocate]

@[simp] theorem read_eq_ok : read xs i = .ok x ↔ xs[i]? = some x := by
  rw [read]
  split <;> simp_all

@[simp] theorem write_eq_ok : write xs i x = .ok ys ↔ i < xs.length ∧ xs.set i x = ys := by
  simp [write]

@[simp] theorem slice_eq_ok :
    slice xs start stop = .ok ys ↔
      (start ≤ stop ∧ stop ≤ xs.length) ∧ (xs.drop start).take (stop - start) = ys := by
  simp [slice]

/-! ## Results that need room -/

section Room

variable {γ : Type} {room more : Prop} [Decidable room] [Decidable more] {y : β}

/-- What is yielded if there is room for it. -/
def ifRoom (room : Prop) [Decidable room] (x : β) : Except Fault β :=
  if room then .ok x else .error .capacity

theorem ifRoom_of (h : room) : ifRoom room x = .ok x := if_pos h

theorem ifRoom_of_not (h : ¬room) : ifRoom room x = .error .capacity := if_neg h

theorem ifRoom_outcomes (room : Prop) [Decidable room] (x : β) :
    (room → ∃ y, ifRoom room x = .ok y) ∧ (¬room → ifRoom room x = .error .capacity) :=
  ⟨fun h => ⟨x, ifRoom_of h⟩, ifRoom_of_not⟩

theorem ifRoom_congr (h : room ↔ more) : ifRoom room x = ifRoom more x := by
  simp only [ifRoom, h]

theorem ifRoom_eq_ok : ifRoom room x = .ok y ↔ room ∧ x = y := by
  rw [ifRoom]
  split <;> simp_all

theorem map_ifRoom (f : β → γ) : f <$> ifRoom room x = ifRoom room (f x) := by
  by_cases h : room
  · rw [ifRoom_of h, ifRoom_of h]
    rfl
  · rw [ifRoom_of_not h, ifRoom_of_not h]
    rfl

/-- Nothing can go wrong but that there is no room at the start. -/
theorem ifRoom_bind {f : β → Except Fault γ} {z : γ} (h : room → f x = .ok z) :
    ifRoom room x >>= f = ifRoom room z := by
  by_cases hroom : room
  · rw [ifRoom_of hroom, ifRoom_of hroom]
    exact h hroom
  · rw [ifRoom_of_not hroom, ifRoom_of_not hroom]
    rfl

theorem ifRoom_bind_ifRoom {f : β → Except Fault γ} {z : γ} (h : f x = ifRoom more z) :
    ifRoom room x >>= f = ifRoom (room ∧ more) z := by
  by_cases hroom : room
  · rw [ifRoom_of hroom, ifRoom_congr (and_iff_right hroom)]
    exact h
  · rw [ifRoom_of_not hroom, ifRoom_of_not fun hand => hroom hand.1]
    rfl

theorem allocate_eq : allocate count bytes = ifRoom (count * bytes < signedLimit) () := by
  rw [allocate, require, ifRoom]
  simp only [decide_eq_true_eq]

end Room

end Checked

/-! ## Loops of checked steps -/

section Loops

variable {ε β γ σ : Type}

theorem mapM_eq_ok {f : β → Except ε γ} {g : β → γ} {xs : List β} (h : ∀ x ∈ xs, f x = .ok (g x)) :
    xs.mapM f = .ok (xs.map g) := by
  induction xs with
  | nil => rfl
  | cons x xs ih =>
      rw [List.mapM_cons, h x List.mem_cons_self, ih fun y hy => h y (List.mem_cons_of_mem x hy)]
      rfl

/-- A loop goes well if each turn does as long as an invariant holds, and keeps the invariant. -/
theorem foldlM_eq_ok {f : σ → β → Except ε σ} {g : σ → β → σ} (P : Nat → σ → Prop) {xs : List β} {s : σ}
    (hstart : P 0 s)
    (hturn : ∀ i x t, xs[i]? = some x → P i t → f t x = .ok (g t x) ∧ P (i + 1) (g t x)) :
    xs.foldlM f s = .ok (xs.foldl g s) ∧ P xs.length (xs.foldl g s) := by
  induction xs generalizing P s with
  | nil => exact ⟨rfl, hstart⟩
  | cons x xs ih =>
      obtain ⟨hx, hP⟩ := hturn 0 x s rfl hstart
      rw [List.foldlM_cons, hx]
      exact ih (fun i => P (i + 1)) hP fun i y t hy => hturn (i + 1) y t hy

theorem foldlM_range_eq_ok {f : σ → Nat → Except ε σ} {g : σ → Nat → σ} (P : Nat → σ → Prop) {n : Nat} {s : σ}
    (hstart : P 0 s) (hturn : ∀ i < n, ∀ t, P i t → f t i = .ok (g t i) ∧ P (i + 1) (g t i)) :
    (List.range n).foldlM f s = .ok ((List.range n).foldl g s) ∧ P n ((List.range n).foldl g s) := by
  obtain ⟨hloop, hP⟩ := foldlM_eq_ok (f := f) (g := g) P hstart fun i x t hx hP => by
    obtain ⟨hi, rfl⟩ := List.getElem?_eq_some_iff.mp hx
    rw [List.length_range] at hi
    rw [List.getElem_range]
    exact hturn i hi t hP
  rw [List.length_range] at hP
  exact ⟨hloop, hP⟩

/-- An invariant that does not count the turns. -/
theorem foldlM_eq_ok_of_mem {f : σ → β → Except ε σ} {g : σ → β → σ} (P : σ → Prop) {xs : List β} {s : σ}
    (hstart : P s) (hturn : ∀ x ∈ xs, ∀ t, P t → f t x = .ok (g t x) ∧ P (g t x)) :
    xs.foldlM f s = .ok (xs.foldl g s) ∧ P (xs.foldl g s) :=
  foldlM_eq_ok (fun _ => P) hstart fun _ x t hx => hturn x (List.mem_of_getElem? hx) t

/-- A loop that goes well comes to what the loop without checks comes to. -/
theorem foldl_eq_of_foldlM {f : σ → β → Except ε σ} {g : σ → β → σ} {xs : List β} {s t : σ}
    (hturn : ∀ x ∈ xs, ∀ u v, f u x = .ok v → g u x = v) (h : xs.foldlM f s = .ok t) : xs.foldl g s = t := by
  induction xs generalizing s with
  | nil => exact Except.ok.inj h
  | cons x xs ih =>
      obtain ⟨u, hx, hrest⟩ := bind_eq_ok.mp h
      rw [List.foldl_cons, hturn x List.mem_cons_self s u hx]
      exact ih (fun y hy => hturn y (List.mem_cons_of_mem x hy)) hrest

end Loops

end StoredMatrix
