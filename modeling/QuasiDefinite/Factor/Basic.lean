import QuasiDefinite.Elimination.Plan
import QuasiDefinite.Factor.Summary
import QuasiDefinite.Reply

/-!
Factorizations `L * D * L^T` of a matrix in elimination order. `L` has a unit
diagonal, which is not stored, and `D` is diagonal. The arrays are made once for
a plan and written again by every factorization; they are never cleared.
-/

namespace QuasiDefinite

structure Factor (α : Type) where
  /-- The matrix itself, unshifted, in the slots of the plan. -/
  matrix : Array α
  lower : Array α
  diagonal : Array α
  inverse : Array α
  /-- The row at work; zero between rows. -/
  work : Array α
  summary : Summary α
  /-- Do the arrays hold a complete factorization? -/
  ready : Bool
  deriving Repr

/-- A product that is taken from a value: from the work array, with the value in
a slot of the factor, or from the pivot, with the entry that gets the slot. -/
inductive Reduction where
  | work (slot : Nat)
  | pivot (slot : Nat)
  deriving Repr, DecidableEq

/-- Runs that take products from values. -/
class Reducing (m : Type → Type) where
  takeProduct {α : Type} [Scalar α] : Reduction → α → α → α → m α

export Reducing (takeProduct)

instance : Reducing Checked where
  takeProduct _ value left right := .ok (value - left * right)

variable {α : Type} [Scalar α]

def Factor.fresh (plan : Plan) : Factor α where
  matrix := .replicate plan.matrixCount 0
  lower := .replicate plan.factorCount 0
  diagonal := .replicate plan.size 0
  inverse := .replicate plan.size 0
  work := .replicate plan.size 0
  summary := .blank
  ready := false

@[specialize]
def loadMatrix (plan : Plan) (values matrix : Array α) :
    Checked (Array α) :=
  (plan.slot.toList.zip values.toList).foldlM
    (fun matrix (slot, value) => Checked.set matrix slot value) matrix

@[specialize]
def spreadRow (plan : Plan) (matrix : Array α) (first diagonal : Nat)
    (work : Array α) : Checked (Array α) :=
  (span first diagonal).foldlM
    (fun work slot => do
      let col ← Checked.get plan.pattern.upper.index slot
      let value ← Checked.get matrix slot
      Checked.set work col value)
    work

structure RowState (α : Type) where
  work : Array α
  lower : Array α
  pivot : α

/-- The rows that are done; their pivots come latest first. -/
structure Sweep (α : Type) where
  work : Array α
  lower : Array α
  diagonal : Array α
  inverse : Array α
  pivots : List (Pivot α)

/-- The first slot of a value that is not finite, where the settings ask. -/
@[specialize]
def Factor.rejected (settings : Settings α) (values : Array α) : Option Nat :=
  if settings.checkFinite then
    values.findIdx? fun value => ! Scalar.isFinite value
  else none

/-! One row. The row of the matrix is spread over the work array; then its
steps clear one position each, take the multiple of the column found there from
the positions to its right, and reduce the pivot. -/

section Kernel

variable (m : Type → Type) [Monad m] [MonadLiftT Checked m] [Reducing m]

/-- Takes `entry` times the slots `first, ..., last - 1` of the factor from the
work array. -/
@[specialize]
def reduceWork (plan : Plan) (lower : Array α) (entry : α)
    (first last : Nat) (work : Array α) : m (Array α) :=
  (span first last).foldlM
    (fun work slot => do
      let row ← Checked.get plan.lower.index slot
      let value ← Checked.get lower slot
      let old ← Checked.get work row
      let new ← takeProduct (.work slot) old value entry
      Checked.set work row new)
    work

@[specialize]
def RowState.step (plan : Plan) (inverse : Array α) (state : RowState α)
    (step : Elimination.Step) : m (RowState α) := do
  let ⟨work, lower, pivot⟩ := state
  let entry ← Checked.get work step.col
  let work ← Checked.set work step.col 0
  let first ← Checked.get plan.lower.start step.col
  let work ← reduceWork m plan lower entry first step.slot work
  let multiplier := entry * (← Checked.get inverse step.col)
  let lower ← Checked.set lower step.slot multiplier
  let pivot ← takeProduct (.pivot step.slot) pivot multiplier entry
  return ⟨work, lower, pivot⟩

@[specialize]
def Sweep.row (plan : Plan) (settings : Settings α) (matrix : Array α)
    (sweep : Sweep α) (row : Nat) : m (Sweep α) := do
  let ⟨work, lower, diagonal, inverse, pivots⟩ := sweep
  let slot ← plan.diagonalSlot row
  let first ← Checked.get plan.pattern.upper.start row
  let work ← spreadRow plan matrix first slot work
  let sign ← Checked.get plan.signs row
  let shifted := (← Checked.get matrix slot) + sign.value * settings.staticReg
  let steps ← plan.steps row
  let ⟨work, lower, raw⟩ ← steps.foldlM (RowState.step m plan inverse)
    ⟨work, lower, shifted⟩
  let pivot := Pivot.regularize settings sign raw
  let diagonal ← Checked.set diagonal row pivot.kept
  let inverse ← Checked.set inverse row (1 / pivot.kept)
  return ⟨work, lower, diagonal, inverse, pivot :: pivots⟩

@[specialize]
def Sweep.all (plan : Plan) (settings : Settings α) (matrix : Array α)
    (start : Sweep α) : m (Sweep α) :=
  (List.range plan.size).foldlM (Sweep.row m plan settings matrix) start

/-- Factors the matrix with the given values. Values that are too few, too many
or not finite are refused; any others are factored to the end. -/
@[specialize]
def Factor.factorizeIn (plan : Plan) (settings : Settings α)
    (values : Array α) (factor : Factor α) :
    m (Reply α (Factor α) (Summary α)) := do
  if plan.matrixCount ≠ values.size then
    return .refuse factor
      (.dimension .factorizeValues plan.matrixCount values.size)
  if let some slot := rejected settings values then
    return .refuse { factor with ready := false } (.nonFinite slot)
  let ⟨matrix, lower, diagonal, inverse, work, _, _⟩ := factor
  let matrix ← loadMatrix plan values matrix
  let ⟨work, lower, diagonal, inverse, latest⟩ ←
    Sweep.all m plan settings matrix ⟨work, lower, diagonal, inverse, []⟩
  let pivots := latest.reverse
  let summary := Summary.ofPivots settings pivots
  let factor :=
    { matrix, lower, diagonal, inverse, work, summary, ready := true }
  return ⟨.ok summary, factor, summary.events pivots⟩

end Kernel

@[specialize]
def Factor.factorize (plan : Plan) (settings : Settings α) (values : Array α)
    (factor : Factor α) : Checked (Reply α (Factor α) (Summary α)) :=
  factorizeIn Checked plan settings values factor

end QuasiDefinite
