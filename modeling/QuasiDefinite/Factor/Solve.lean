import QuasiDefinite.Factor.Basic

namespace QuasiDefinite

/-- Vectors that solves and checks write over. What they hold between two
operations is of no account. -/
structure Workspace (α : Type) where
  work : Array α
  residual : Array α
  solution : Array α
  deriving Repr

variable {α : Type} [Scalar α]

def Workspace.ofSize (size : Nat) : Workspace α :=
  ⟨.replicate size 0, .replicate size 0, .replicate size 0⟩

def Workspace.size (space : Workspace α) : Nat :=
  space.work.size

namespace Factor

/-- Takes component `col` times its column from the components below; a zero
component is passed over. -/
@[specialize]
def forwardColumn (plan : Plan) (lower : Array α) (x : Array α) (col : Nat) :
    Checked (Array α) := do
  let component ← Checked.get x col
  if Scalar.isZero component then return x
  (← plan.lower.positions col).foldlM
    (fun x slot => do
      let row ← Checked.get plan.lower.index slot
      let value ← Checked.get lower slot
      Checked.modify x row (· - value * component))
    x

@[specialize]
def backwardColumn (plan : Plan) (lower : Array α) (x : Array α) (col : Nat) :
    Checked (Array α) := do
  let start ← Checked.get x col
  let component ← (← plan.lower.positions col).foldlM
    (fun total slot => do
      let row ← Checked.get plan.lower.index slot
      let value ← Checked.get lower slot
      return total - value * (← Checked.get x row))
    start
  Checked.set x col component

/-- Solves `L * D * L^T * y = x` in elimination order. -/
@[specialize]
def substitute (plan : Plan) (factor : Factor α) (x : Array α) :
    Checked (Array α) := do
  let cols := List.range plan.size
  let x ← cols.foldlM (forwardColumn plan factor.lower) x
  let x := Array.zipWith (· * ·) x factor.inverse
  cols.reverse.foldlM (backwardColumn plan factor.lower) x

@[specialize]
def permuted (plan : Plan) (vector : Array α) : Checked (Array α) :=
  plan.order.order.mapM (Checked.get vector)

/-- Writes a vector in elimination order over `target`, in natural order. -/
@[specialize]
def unpermuted (plan : Plan) (vector target : Array α) :
    Checked (Array α) :=
  (plan.order.order.toList.zip vector.toList).foldlM
    (fun target (index, value) => Checked.set target index value) target

def checkLengths (lengths : List (Quantity × Nat × Nat)) :
    Except (Error α) Unit :=
  lengths.forM fun (quantity, expected, actual) =>
    checkLength quantity expected actual

@[specialize]
def solve (plan : Plan) (factor : Factor α) (space : Workspace α)
    (rhs target : Array α) :
    Checked (Reply α (Workspace α × Array α) Unit) := do
  let size := plan.size
  match checkLengths [(.solveRhs, size, rhs.size),
      (.solveOutput, size, target.size),
      (.solveWorkspace, size, space.size)] with
  | .error error => return .refuse (space, target) error
  | .ok () =>
      let work ← substitute plan factor (← permuted plan rhs)
      let target ← unpermuted plan work target
      return .answer ({ space with work }, target) ()

end Factor

end QuasiDefinite
