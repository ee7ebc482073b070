import QuasiDefinite.NewtonSystem.Assembly

/-!
Linear control over a finite horizon. The unknowns are
`x 0, u 0, x 1, u 1, ..., x N`, stage by stage. The cost couples neighbouring
components of one state and nothing else. The equalities fix `x 0` and state
`x (k + 1) = A * x k + B * u k`; the inequalities bound every input from above
and from below.
-/

namespace QuasiDefinite

structure Horizon where
  /-- The number of steps; there is one state more. -/
  stages : Nat
  states : Nat
  inputs : Nat
  deriving Repr, DecidableEq

structure Horizon.Model (α : Type) where
  stateCost : Nat → Nat → α
  /-- The cost shared by components `i` and `i + 1` of state `k`. -/
  coupling : Nat → Nat → α
  inputCost : Nat → Nat → α
  /-- The matrix `A`, by row and column. -/
  drift : Nat → Nat → α
  /-- The matrix `B`, by row and column. -/
  gain : Nat → Nat → α

namespace Horizon

variable {α : Type} [Scalar α]

def stateIndex (horizon : Horizon) (k i : Nat) : Nat :=
  k * (horizon.states + horizon.inputs) + i

def inputIndex (horizon : Horizon) (k i : Nat) : Nat :=
  k * (horizon.states + horizon.inputs) + horizon.states + i

def unknowns (horizon : Horizon) : Nat :=
  horizon.stateIndex horizon.stages horizon.states

def layout (horizon : Horizon) : Layout where
  primal := horizon.unknowns
  equalities := (horizon.stages + 1) * horizon.states
  inequalities := 2 * horizon.stages * horizon.inputs

def costTriplets (horizon : Horizon) (model : Model α) :
    List (Nat × Nat × α) :=
  (List.range (horizon.stages + 1)).flatMap fun k =>
    ((List.range horizon.states).flatMap fun i =>
      let here := horizon.stateIndex k i
      (here, here, model.stateCost k i) ::
        if i + 1 < horizon.states then
          [(here, here + 1, model.coupling k i)]
        else [])
    ++ if k < horizon.stages then
        (List.range horizon.inputs).map fun i =>
          let here := horizon.inputIndex k i
          (here, here, model.inputCost k i)
      else []

/-- The rows `x 0 = ...` and `x (k + 1) - A * x k - B * u k = 0`. -/
def equalityTriplets (horizon : Horizon) (model : Model α) :
    List (Nat × Nat × α) :=
  ((List.range horizon.states).map fun i =>
    (i, horizon.stateIndex 0 i, 1))
  ++ (List.range horizon.stages).flatMap fun k =>
    (List.range horizon.states).flatMap fun i =>
      let row := (k + 1) * horizon.states + i
      (row, horizon.stateIndex (k + 1) i, 1) ::
        ((List.range horizon.states).map fun j =>
          (row, horizon.stateIndex k j, -model.drift i j))
        ++ (List.range horizon.inputs).map fun j =>
          (row, horizon.inputIndex k j, -model.gain i j)

def inequalityTriplets (horizon : Horizon) : List (Nat × Nat × α) :=
  (List.range horizon.stages).flatMap fun k =>
    (List.range horizon.inputs).flatMap fun i =>
      let row := 2 * (k * horizon.inputs + i)
      let col := horizon.inputIndex k i
      [(row, col, 1), (row + 1, col, -1)]

def blocks (horizon : Horizon) (model : Model α) : Checked (Blocks α) := do
  let layout := horizon.layout
  let cost ← Sparse.ofUpperTriplets .byColumn layout.primal
    (horizon.costTriplets model)
  let equality ← Sparse.ofTriplets .byColumn layout.equalities
    layout.primal (horizon.equalityTriplets model)
  let inequality ← Sparse.ofTriplets .byColumn layout.inequalities
    layout.primal horizon.inequalityTriplets
  return ⟨some cost, some equality, some inequality⟩

end Horizon

end QuasiDefinite
