import StoredMatrix.Grid.Structure
import StoredMatrix.Workspace
import StoredMatrix.Proofs.Acceptance
import StoredMatrix.Proofs.Columns
import StoredMatrix.Proofs.WellFormed
import StoredMatrix.Proofs.Buffers
import StoredMatrix.Proofs.StoredEntries
import StoredMatrix.Proofs.Expansion
import StoredMatrix.Proofs.Compression
import StoredMatrix.Proofs.Reachability
import StoredMatrix.Proofs.StructuralEquality
import StoredMatrix.Proofs.RoundTrip
import StoredMatrix.Proofs.SignedZero
import StoredMatrix.Proofs.Promotion
import StoredMatrix.Proofs.MathematicalEquality
import StoredMatrix.Proofs.RandomAccess
import StoredMatrix.Proofs.FuzzyEquality
import StoredMatrix.Proofs.Indistinguishability
import StoredMatrix.Proofs.Reimport
import StoredMatrix.Proofs.Conversions
import StoredMatrix.Proofs.GridCompression
import StoredMatrix.Proofs.ColumnOrder
import StoredMatrix.Proofs.RoundingOrder
import StoredMatrix.Proofs.ToleranceOrder
import StoredMatrix.Proofs.ExtremeTolerances
import StoredMatrix.Proofs.RefusedBuffers
import StoredMatrix.Proofs.CheckedArithmetic
import StoredMatrix.Proofs.IndexSafety
import StoredMatrix.Proofs.NumberText
import StoredMatrix.Proofs.Display
import StoredMatrix.Proofs.ComplexInput
import StoredMatrix.Proofs.GridReading
import StoredMatrix.Proofs.BufferSafety
import StoredMatrix.Proofs.DiagonalRun
import StoredMatrix.Proofs.SquareGrids
import StoredMatrix.Proofs.GridStructures
import StoredMatrix.Proofs.Bands
import StoredMatrix.Proofs.UpperTriangle
import StoredMatrix.Proofs.GridShapes
import StoredMatrix.Proofs.LogicalMatrices
import StoredMatrix.Proofs.ContiguousRuns
import StoredMatrix.Proofs.CheckedConversions
import StoredMatrix.Proofs.DenseForms
import StoredMatrix.Proofs.CheckedComparison
import StoredMatrix.Proofs.WorkspaceRuns
