import QuasiDefinite.Horizon.Problem
import QuasiDefinite.RandomSource

namespace QuasiDefinite.Horizon

structure Sample (horizon : Horizon) where
  /-- The costs of a state, each with the one it shares with the next. -/
  states : Vector (Vector (Float × Float) horizon.states) (horizon.stages + 1)
  inputs : Vector (Vector Float horizon.inputs) horizon.stages
  drift : Vector Float (horizon.states * horizon.states)
  gain : Vector Float (horizon.states * horizon.inputs)

namespace Sample

variable {horizon : Horizon}

def model (sample : Sample horizon) : Model Float where
  stateCost k i := (sample.states[k]?.bind (·[i]?)).elim 0 Prod.fst
  coupling k i := (sample.states[k]?.bind (·[i]?)).elim 0 Prod.snd
  inputCost k i := (sample.inputs[k]?.bind (·[i]?)).getD 0
  drift row col := sample.drift.getD (row * horizon.states + col) 0
  gain row col := sample.gain.getD (row * horizon.inputs + col) 0

end Sample

def drawState (horizon : Horizon) :
    StateM RandomSource (Vector (Float × Float) horizon.states) :=
  Vector.ofFnM fun i => do
    let own ← RandomSource.uniform 1.0 4.0
    let shared ←
      if i + 1 < horizon.states then RandomSource.uniform (-0.3) 0.3 else pure 0
    return (own, shared)

def drawInput (horizon : Horizon) :
    StateM RandomSource (Vector Float horizon.inputs) :=
  Vector.ofFnM fun _ => RandomSource.uniform 0.1 1.0

def drawSample (horizon : Horizon) :
    StateM RandomSource (Sample horizon) := do
  let stages : Vector _ horizon.stages ← Vector.ofFnM fun _ => do
    return (← drawState horizon, ← drawInput horizon)
  let last ← drawState horizon
  let drift ← Vector.ofFnM fun place => do
    let row := place / horizon.states
    let col := place % horizon.states
    let unit : Float := if row = col then 1.0 else 0.0
    return unit + (← RandomSource.uniform (-0.1) 0.1)
  let gain ← Vector.ofFnM fun _ => RandomSource.uniform (-1.0) 1.0
  return ⟨(stages.map Prod.fst).push last, stages.map Prod.snd, drift, gain⟩

def drawModel (horizon : Horizon) : StateM RandomSource (Model Float) :=
  Sample.model <$> horizon.drawSample

end QuasiDefinite.Horizon
