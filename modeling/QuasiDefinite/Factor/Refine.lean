import QuasiDefinite.Factor.Residual

namespace QuasiDefinite

variable {α : Type} [Scalar α]

structure Refinement (α : Type) where
  steps : Nat
  /-- The residual norms before the first and after the last of them. -/
  before : α
  after : α
  deriving Repr

namespace Factor

structure Refining (α : Type) where
  space : Workspace α
  steps : Nat
  norm : α

/-- The workspace after one step, before it is known whether it helps. The
solution so far is kept aside. -/
def correct (plan : Plan) (factor : Factor α) (space : Workspace α) :
    Checked (Workspace α) := do
  let ⟨_, residual, solution⟩ := space
  let correction ← substitute plan factor residual
  return { work := solution, residual := correction
           solution := Array.zipWith (· + ·) solution correction }

def refineSteps (plan : Plan) (factor : Factor α) (rhs : Array α)
    (tolerance : α) : Nat → Refining α → Checked (Refining α)
  | 0, state => return state
  | limit + 1, state => do
      let ⟨space, steps, norm⟩ := state
      if Scalar.lt tolerance norm then
        let space ← correct plan factor space
        let (normSq, space) ← residual plan factor rhs space
        let next := Scalar.sqrt normSq
        if Scalar.le norm next then
          return ⟨{ space with solution := space.work }, steps, norm⟩
        else
          refineSteps plan factor rhs tolerance limit
            ⟨space, steps + 1, next⟩
      else return ⟨space, steps, norm⟩

def refine (plan : Plan) (factor : Factor α) (space : Workspace α)
    (rhs x : Array α) (tolerance : α) (limit : Nat) :
    Checked (Reply α (Workspace α × Array α) (Refinement α)) := do
  match checkResidualLengths plan space rhs x with
  | .error error => return .refuse (space, x) error
  | .ok () =>
      let solution ← permuted plan x
      let (normSq, space) ← residual plan factor rhs { space with solution }
      let before := Scalar.sqrt normSq
      let ⟨space, steps, after⟩ ← refineSteps plan factor rhs tolerance limit
        ⟨space, 0, before⟩
      let x ← unpermuted plan space.solution x
      return ⟨.ok ⟨steps, before, after⟩, (space, x),
        [.refined steps before after]⟩

end Factor

end QuasiDefinite
