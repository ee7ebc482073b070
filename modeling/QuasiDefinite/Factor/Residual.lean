import QuasiDefinite.Factor.Solve
import QuasiDefinite.Sparse.Product

namespace QuasiDefinite

variable {α : Type} [Scalar α]

namespace Factor

/-- Sets the residual of the solution held in the workspace and returns the sum
of its squares. -/
@[specialize]
def residual (plan : Plan) (factor : Factor α) (rhs : Array α)
    (space : Workspace α) : Checked (α × Workspace α) := do
  let product ← symmetricProduct plan.pattern.upper factor.matrix
    space.solution space.residual
  let permutedRhs ← permuted plan rhs
  let residual := Array.zipWith (· - ·) permutedRhs product
  return (normSq residual, { space with residual })

def checkResidualLengths (plan : Plan) (space : Workspace α)
    (rhs x : Array α) : Except (Error α) Unit :=
  checkLengths [(.residualRhs, plan.size, rhs.size),
    (.residualSolution, plan.size, x.size),
    (.residualWorkspace, plan.size, space.size)]

/-- The squared norm of `A * x - rhs`. -/
@[specialize]
def residualNormSq (plan : Plan) (factor : Factor α) (space : Workspace α)
    (rhs x : Array α) : Checked (Reply α (Workspace α) α) := do
  match checkResidualLengths plan space rhs x with
  | .error error => return .refuse space error
  | .ok () =>
      let solution ← permuted plan x
      let (value, space) ← residual plan factor rhs { space with solution }
      return .answer space value

/-! The defect. A row of `L` is spread over a dense vector; its products with
the rows above give the entries of `L * D * L^T` that lie in the column of the
matrix. -/

def productEntry (plan : Plan) (factor : Factor α) (dense : Array α)
    (row : Nat) : Checked α := do
  let diagonal := (← Checked.get factor.diagonal row)
    * (← Checked.get dense row)
  (← plan.steps row).foldlM
    (fun total step => do
      let value ← Checked.get factor.lower step.slot
      let pivot ← Checked.get factor.diagonal step.col
      return total + value * pivot * (← Checked.get dense step.col))
    diagonal

def defectColumn (plan : Plan) (factor : Factor α)
    (state : α × Array α) (col : Nat) : Checked (α × Array α) := do
  let (total, dense) := state
  let steps ← plan.steps col
  let dense ← steps.foldlM
    (fun dense step => do
      Checked.set dense step.col (← Checked.get factor.lower step.slot))
    dense
  let dense ← Checked.set dense col 1
  let total ← (← plan.pattern.upper.positions col).foldlM
    (fun total slot => do
      let row ← Checked.get plan.pattern.upper.index slot
      let product ← productEntry plan factor dense row
      let defect := (← Checked.get factor.matrix slot) - product
      return total + defect * defect)
    total
  let dense ← steps.foldlM
    (fun dense step => Checked.set dense step.col 0) dense
  return (total, ← Checked.set dense col 0)

/-- The squared norm of `A - L * D * L^T` over the slots of `A`, each counted
once. -/
def defectNormSq (plan : Plan) (factor : Factor α) (space : Workspace α) :
    Checked (α × Workspace α) := do
  let (total, work) ← (List.range plan.size).foldlM
    (defectColumn plan factor) (0, space.work.map fun _ => 0)
  return (total, { space with work })

end Factor

end QuasiDefinite
