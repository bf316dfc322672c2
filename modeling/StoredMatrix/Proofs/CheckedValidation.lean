import StoredMatrix.Proofs.CheckedReading
import StoredMatrix.Proofs.RefusedBuffers

/-!
# Checked validation

Input that is still to be validated is already computed with: pointers are subtracted, cast and used
as positions. A validation is made of checked steps, which go wrong or not, and of checks, which
accept or refuse. Where no step goes wrong, it comes to the result of its checks alone.
-/

namespace StoredMatrix

/-- A computation that goes wrong, refuses its input, or has a result. -/
abbrev Validation (β : Type) : Type := ExceptT Error (Except Fault) β

namespace Validation

variable {β γ : Type}

/-- A step that goes wrong or not, and refuses nothing. -/
def step (x : Except Fault β) : Validation β := ExceptT.lift x

/-- No step goes wrong, and the result or the refusal is the given one. -/
def Yields (v : Validation β) (result : Except Error β) : Prop := v.run = .ok result

theorem yields_check (x : Except Error β) : Yields (liftM x) x := rfl

theorem yields_pure (b : β) : Yields (pure b) (pure b) := rfl

theorem step_bind {x : Except Fault β} {b : β} (hx : x = .ok b) (f : β → Validation γ) :
    step x >>= f = f b := by
  subst hx
  rfl

/-- What follows is run on results only. -/
theorem Yields.bind {v : Validation β} {x : Except Error β} {f : β → Validation γ}
    {g : β → Except Error γ} (hv : v.Yields x) (hf : ∀ b, x = .ok b → (f b).Yields (g b)) :
    (v >>= f).Yields (x >>= g) := by
  rw [Yields, ExceptT.run_bind, hv]
  cases x with
  | error e => rfl
  | ok b => exact hf b rfl

/-- A validation whose result is known beforehand only has its checks left to say. -/
theorem Yields.bind_of_pure {v : Validation β} {x : Except Error Unit} {b : β} {f : β → Validation γ}
    {y : Except Error γ} (hv : v.Yields (x >>= fun _ => pure b)) (hf : x = .ok () → (f b).Yields y) :
    (v >>= f).Yields (x >>= fun _ => y) := by
  rw [Yields, ExceptT.run_bind, hv]
  cases x with
  | error e => rfl
  | ok u => exact hf rfl

/-- A traversal refuses for the first witness that it meets. -/
theorem Yields.forM {f : β → Validation PUnit} {witness : β → Option γ} {error : γ → Error} {xs : List β}
    (h : ∀ x ∈ xs, (f x).Yields (Sparse.refuse (witness x) error)) :
    (xs.forM f).Yields (Sparse.refuse (xs.findSome? witness) error) := by
  induction xs with
  | nil => rfl
  | cons x xs ih =>
      have hx := h x List.mem_cons_self
      have ih := ih fun y hy => h y (List.mem_cons_of_mem x hy)
      rw [List.findSome?_cons]
      change (f x >>= fun _ => xs.forM f).Yields _
      cases hw : witness x with
      | none =>
          rw [hw] at hx
          exact hx.bind fun _ _ => ih
      | some w =>
          rw [hw] at hx
          exact hx.bind (g := fun _ => .ok ()) nofun

theorem Yields.forM_find? {f : β → Validation PUnit} {stray : β → Bool} {error : β → Error} {xs : List β}
    (h : ∀ x ∈ xs, (f x).Yields (ensure (!stray x) (error x))) :
    (xs.forM f).Yields (Sparse.refuse (xs.find? stray) error) := by
  rw [List.find?_eq_findSome?_guard]
  refine Yields.forM fun x hx => ?_
  have hx := h x hx
  cases hstray : stray x with
  | false =>
      rw [hstray] at hx
      rwa [Option.guard_eq_none_iff.mpr hstray]
  | true =>
      rw [hstray] at hx
      rwa [Option.guard_eq_some_iff.mpr ⟨rfl, hstray⟩]

end Validation

/-! ## Further steps -/

namespace Checked

/-- A difference of words, if there is one. -/
def sub? (a b : Nat) : Option Nat := if b ≤ a then some (a - b) else none

/-- A difference of pointers. -/
def subPointers (a b : Int) : Except Fault Int := do
  require (-(signedLimit : Int) ≤ a - b ∧ a - b < signedLimit) .overflow
  return a - b

/-- Room for a number of elements where there has to be room for another number at most. -/
def reserve (count limit : Nat) : Except Fault Unit := require (count ≤ limit) .capacity

theorem sub?_eq_some {a b c : Nat} : sub? a b = some c ↔ a = c + b := by
  rw [sub?, Option.ite_none_right_eq_some, Option.some.injEq]
  omega

@[simp] theorem subPointers_eq_ok {a b c : Int} :
    subPointers a b = .ok c ↔ (-(signedLimit : Int) ≤ a - b ∧ a - b < signedLimit) ∧ a - b = c := by
  simp [subPointers]

@[simp] theorem reserve_eq_ok {count limit : Nat} {u : Unit} : reserve count limit = .ok u ↔ count ≤ limit := by
  simp [reserve]

end Checked

/-! ## Refusals -/

theorem ensure_bind_ensure (condition condition' : Bool) (error : Error) :
    (ensure condition error >>= fun _ => ensure condition' error) = ensure (condition && condition') error := by
  cases condition <;> rfl

theorem Sparse.refuse_map {β γ : Type} (witness : Option β) (f : β → γ) (error : γ → Error) :
    refuse (witness.map f) error = refuse witness fun w => error (f w) := by
  cases witness <;> rfl

/-! ## Repeated numbers of a sorted list -/

namespace Sparse

/-- The first number that is followed by itself. -/
def adjacentRepeat? (ns : List Int) : Option Int :=
  ((ns.zip ns.tail).find? fun (n, next) => decide (n = next)).map Prod.fst

theorem leastRepeated?_congr {ns ns' : List Int} (h : ∀ n, 1 < ns.count n ↔ 1 < ns'.count n) :
    leastRepeated? ns = leastRepeated? ns' := by
  ext n
  simp only [leastRepeated?_eq_some_iff, h]

theorem adjacentRepeat?_eq {ns : List Int} (hsorted : ns.Pairwise (· ≤ ·)) :
    adjacentRepeat? ns = leastRepeated? ns := by
  induction ns with
  | nil => rfl
  | cons n ns ih =>
      obtain ⟨hle, hrest⟩ := List.pairwise_cons.mp hsorted
      have ih := ih hrest
      cases ns with
      | nil => simp [adjacentRepeat?, leastRepeated?]
      | cons next ns =>
          by_cases heq : n = next
          · subst heq
            have hfirst : adjacentRepeat? (n :: n :: ns) = some n := by simp [adjacentRepeat?]
            rw [hfirst, eq_comm, leastRepeated?_eq_some_iff]
            refine ⟨by simp, fun m hm => ?_⟩
            rcases List.mem_cons.mp (List.count_pos_iff.mp (Nat.zero_lt_of_lt hm)) with rfl | hm
            · exact Int.le_refl _
            · exact hle m hm
          · -- the first number is below all others
            have hlt : ∀ m ∈ next :: ns, n < m := by
              intro m hm
              have hnext := hle next List.mem_cons_self
              rcases List.mem_cons.mp hm with rfl | hm
              · omega
              · have := (List.pairwise_cons.mp hrest).1 m hm
                omega
            have hskip : adjacentRepeat? (n :: next :: ns) = adjacentRepeat? (next :: ns) := by
              simp [adjacentRepeat?, heq]
            rw [hskip, ih]
            refine leastRepeated?_congr fun m => ?_
            by_cases hm : m = n
            · subst hm
              have hzero : (next :: ns).count m = 0 :=
                List.count_eq_zero.mpr fun hmem => Int.lt_irrefl m (hlt m hmem)
              rw [List.count_cons_self, hzero]
              omega
            · rw [List.count_cons_of_ne (Ne.symm hm)]

/-- Sorting brings equal numbers together, the least ones first. -/
theorem adjacentRepeat?_mergeSort (ns : List Int) : adjacentRepeat? ns.mergeSort = leastRepeated? ns := by
  rw [adjacentRepeat?_eq (List.pairwise_mergeSort' (· ≤ ·) ns)]
  exact leastRepeated?_congr fun n => by rw [(List.mergeSort_perm ns _).count_eq]

end Sparse

end StoredMatrix
