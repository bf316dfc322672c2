import Mathlib.Data.List.GetD
import StoredMatrix.Proofs.Compression

/-!
# Promotion

Seen as complex, a matrix has the promoted entries at the same positions, in every shape. A stored
entry is promoted where it stands, and an empty position stays a zero.
-/

namespace StoredMatrix

variable {α : Type} [Element α]

/-! ## Entries of each shape -/

theorem promote_entry_zero : Element.promote (Entry.zero : α) = Entry.zero := Element.promote_zero

theorem getD_promoteAll (xs : List α) (i : Nat) :
    (promoteAll xs).getD i Entry.zero = Element.promote (xs.getD i Entry.zero) := by
  rw [promoteAll, ← promote_entry_zero (α := α), List.getD_map]

@[simp] theorem Dense.entry_toComplex (m : Dense α) (row col : Nat) :
    m.toComplex.entry row col = Element.promote (m.entry row col) :=
  getD_promoteAll m.data _

@[simp] theorem Dense.get?_toComplex (m : Dense α) (row col : Nat) :
    m.toComplex.get? row col = (m.get? row col).map Element.promote := by
  rw [get?, get?, toComplex, promoteAll, List.getElem?_map]
  split <;> rfl

@[simp] theorem Diagonal.get?_toComplex (m : Diagonal α) (row col : Nat) :
    m.toComplex.get? row col = (m.get? row col).map Element.promote := by
  rw [get?, get?, toComplex, getD_promoteAll]
  split
  · split
    · rfl
    · rw [Option.map_some, promote_entry_zero]
  · rfl

theorem lookup_map_snd {β γ : Type} (f : β → γ) (entries : List (Int × β)) (row : Int) :
    (entries.map (Prod.map id f)).lookup row = (entries.lookup row).map f := by
  induction entries with
  | nil => rfl
  | cons entry entries ih =>
      obtain ⟨key, b⟩ := entry
      rw [List.map_cons, List.lookup_cons, Prod.map_apply, List.lookup_cons]
      dsimp only [id]
      split
      · rfl
      · exact ih

theorem Sparse.column_toComplex (m : Sparse α) (col : Nat) :
    m.toComplex.column col = (m.column col).map (Prod.map id Element.promote) := by
  rw [column, column, ← List.zip_map_right, ← columnSlice_map]
  rfl

@[simp] theorem Sparse.get?_toComplex (m : Sparse α) (row col : Nat) :
    m.toComplex.get? row col = (m.get? row col).map Element.promote := by
  cases hin : m.dims.contains row col with
  | false => rw [get?_eq_none hin, get?_eq_none (m := m.toComplex) hin, Option.map_none]
  | true =>
      rw [get?_eq_some hin, get?_eq_some (m := m.toComplex) hin, column_toComplex, lookup_map_snd,
        ← promote_entry_zero (α := α), Option.getD_map, Option.map_some]

@[simp] theorem Storage.get?_toComplex (s : Storage α) (row col : Nat) :
    s.toComplex.get? row col = (s.get? row col).map Element.promote := by
  cases s with
  | dense m => exact m.get?_toComplex row col
  | diagonal m => exact m.get?_toComplex row col
  | sparse m => exact m.get?_toComplex row col

/-! ## Zeros -/

theorem Element.isNonzero_promote (a : α) :
    Entry.isNonzero (Element.promote a) = Entry.isNonzero a :=
  congrArg not (Element.isZero_promote a)

/-- Promoting commutes with dropping the signs of zeros. -/
theorem Entry.normalize_promote (a : α) :
    Entry.normalize (Element.promote a) = Element.promote (Entry.normalize a) := by
  rw [Entry.normalize, Entry.normalize, Element.isNonzero_promote]
  split
  · rfl
  · exact promote_entry_zero.symm

omit [Element α] in
@[simp] theorem Entry.normalize_normalize [Entry α] (a : α) :
    Entry.normalize (Entry.normalize a) = Entry.normalize a := by
  cases hz : Entry.isZero a with
  | true => rw [Entry.normalize_of_isZero hz, Entry.normalize_of_isZero Entry.isZero_zero]
  | false =>
      have hnz : Entry.isNonzero a = true := congrArg not hz
      rw [Entry.normalize_of_isNonzero hnz, Entry.normalize_of_isNonzero hnz]

end StoredMatrix
