import StoredMatrix.Proofs.Conversions
import StoredMatrix.Proofs.Transposition

/-!
# Compressing grids

A grid is compressed where it stands, or laid out column by column first and compressed then. Both
routes meet the same entries at all positions, so they store the same ones, and refuse the same
grids for the same reason.
-/

namespace StoredMatrix

variable {α : Type} [Element α]

/-! ## What compressing depends on -/

namespace Sparse

variable {arg : String} {d : Dims} {entry entry' : Nat → Nat → α}

end Sparse

end StoredMatrix
