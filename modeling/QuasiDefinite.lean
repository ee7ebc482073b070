import QuasiDefinite.Main
import QuasiDefinite.Proofs.Elimination.Tree
import QuasiDefinite.Proofs.Elimination.Rows
import QuasiDefinite.Proofs.Compressed
import QuasiDefinite.Proofs.Elimination.Schedule
import QuasiDefinite.Proofs.Order.Permutation
import QuasiDefinite.Proofs.Pattern.Relabel
import QuasiDefinite.Proofs.Pattern.Constructed
import QuasiDefinite.Proofs.Elimination.Plan
import QuasiDefinite.Proofs.Elimination.FillIn
import QuasiDefinite.Proofs.Factor.Numbers
import QuasiDefinite.Proofs.Factor.Row
import QuasiDefinite.Proofs.Factor.Sweep
import QuasiDefinite.Proofs.Factor.History
import QuasiDefinite.Proofs.Exact.Field
import QuasiDefinite.Proofs.Exact.Regularize
import QuasiDefinite.Proofs.Exact.Dense
import QuasiDefinite.Proofs.Exact.Decomposition
import QuasiDefinite.Proofs.Factor.Substitute
import QuasiDefinite.Proofs.Exact.Solve
import QuasiDefinite.Proofs.Factor.Answers
import QuasiDefinite.Proofs.Factor.Refine
import QuasiDefinite.Proofs.Session.Calls
import QuasiDefinite.Proofs.Session.Solve
import QuasiDefinite.Proofs.Session.Record
import QuasiDefinite.Proofs.Factor.Reorder
import QuasiDefinite.Proofs.NewtonSystem.Entries
import QuasiDefinite.Proofs.NewtonSystem.Slots
import QuasiDefinite.Proofs.NewtonSystem.Updates
import QuasiDefinite.Proofs.Exact.Semidefinite
import QuasiDefinite.Proofs.NewtonSystem.Convex
import QuasiDefinite.Proofs.Factor.Workspace
import QuasiDefinite.Proofs.Session.Interview
import QuasiDefinite.Proofs.Session.Total
import QuasiDefinite.Proofs.Pattern.Adopted
import QuasiDefinite.Proofs.Machine.Unpacked
import QuasiDefinite.Proofs.Machine.Pivots
import QuasiDefinite.Proofs.Pattern.Canonical
import QuasiDefinite.Proofs.Sparse.Triplets
import QuasiDefinite.Proofs.Pattern.Values
import QuasiDefinite.Proofs.Machine.Sums
import QuasiDefinite.Proofs.NewtonSystem.Export
import QuasiDefinite.Proofs.Exact.SaddlePoint
import QuasiDefinite.Proofs.NewtonSystem.Definite
import QuasiDefinite.Proofs.Session.Factored
import QuasiDefinite.Proofs.Sparse.Sums
import QuasiDefinite.Proofs.Horizon.Blocks
import QuasiDefinite.Proofs.Horizon.Cost
import QuasiDefinite.Proofs.Horizon.Dynamics
import QuasiDefinite.Proofs.Horizon.Unshifted
import QuasiDefinite.Proofs.Exact.Residual
import QuasiDefinite.Proofs.Exact.SymmetricProduct
import QuasiDefinite.Proofs.Exact.Refine
import QuasiDefinite.Proofs.Session.Refined
import QuasiDefinite.Proofs.Machine.Order
import QuasiDefinite.Proofs.Machine.Refine
import QuasiDefinite.Proofs.Exact.Defect
import QuasiDefinite.Proofs.Session.Measured
import QuasiDefinite.Proofs.Pattern.Collect
import QuasiDefinite.Proofs.Session.Coverage
import QuasiDefinite.Proofs.Machine.Value
import QuasiDefinite.Proofs.Horizon.Encoding
import QuasiDefinite.Proofs.Horizon.Sample
import QuasiDefinite.Proofs.Session.Rejected
import QuasiDefinite.Proofs.Sizes.Demands
import QuasiDefinite.Proofs.Sizes.Calls
import QuasiDefinite.Proofs.Sizes.Operations
import QuasiDefinite.Proofs.Elimination.Ascent
import QuasiDefinite.Proofs.Elimination.Storage
import QuasiDefinite.Proofs.Pattern.Unmatched
import QuasiDefinite.Proofs.Elimination.Workload
import QuasiDefinite.Proofs.Factor.Traced
import QuasiDefinite.Proofs.Order.Choice
