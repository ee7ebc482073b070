import QuasiDefinite.Bench.Options
import QuasiDefinite.Horizon.Sample
import QuasiDefinite.Session.Basic
import QuasiDefinite.Timing

/-!
Replaying controller ticks. A tick writes a new barrier diagonal, factors the
system, solves for a predictor and a corrector, and checks the residuals if
asked to. The stopwatch is a parameter: a program passes a clock, and a run
without a clock computes the same.
-/

namespace QuasiDefinite.Bench

structure Stopwatch (m : Type → Type) where
  time : {β : Type} → (Unit → β) → m (β × Duration)

def Stopwatch.still : Stopwatch Id where
  time phase := (phase (), .zero)

inductive Failure where
  | emptyProblem
  | assembling (error : Error Float)
  | planning (error : Error Float)
  | ticking (error : Error Float)
  | fault (fault : Fault)
  deriving Repr

structure Replay where
  system : NewtonSystem Float
  session : Session Float
  source : RandomSource
  worstRatio : Float
  worstResidual : Float

structure TickData where
  slacks : Array Float
  multipliers : Array Float
  predictor : Array Float
  corrector : Array Float

/-- A power of ten with an exponent between -4 and 1. -/
def drawMagnitude : StateM RandomSource Float := do
  return Float.pow 10.0 (← RandomSource.uniform (-4.0) 1.0)

def drawPairs (count : Nat) (draw : StateM RandomSource Float) :
    StateM RandomSource (Array Float × Array Float) := do
  let pairs ← (List.range count).mapM fun _ => do
    let first ← draw
    let second ← draw
    return (first, second)
  return ((pairs.map Prod.fst).toArray, (pairs.map Prod.snd).toArray)

def drawTick (layout : Layout) : StateM RandomSource TickData := do
  let (slacks, multipliers) ← drawPairs layout.inequalities drawMagnitude
  let (predictor, corrector) ← drawPairs layout.size
    (RandomSource.uniform (-1.0) 1.0)
  return ⟨slacks, multipliers, predictor, corrector⟩

abbrev Run (m : Type → Type) := ExceptT Failure m

variable {m : Type → Type} [Monad m]

def unfault {β : Type} (computed : Checked β) : Run m β :=
  ExceptT.mk (pure (computed.mapError .fault))

/-- The value of an operation that does not fail in a well formed tick. -/
def succeed {β : Type} (result : Except (Error Float) β) : Run m β :=
  ExceptT.mk (pure (result.mapError .ticking))

def timed {β : Type} (watch : Stopwatch m) (phase : Unit → β) :
    Run m (β × Duration) :=
  ExceptT.lift (watch.time phase)

def solveBoth (session : Session Float) (data : TickData) :
    Checked (Reply Float (Session Float × Array Float × Array Float) Unit) :=
  let zeros := Array.replicate session.size 0
  session.solvePair data.predictor data.corrector zeros zeros

def checkBoth (session : Session Float) (data : TickData)
    (x₁ x₂ : Array Float) :
    Checked (Session Float × Except (Error Float) (Float × Float)) := do
  let first ← session.residualNormSq data.predictor x₁
  let second ← first.state.residualNormSq data.corrector x₂
  return (second.state, do
    return ((← first.result).sqrt, (← second.result).sqrt))

def tick (watch : Stopwatch m) (check : Bool) (replay : Replay) :
    Run m (Replay × Timers) := do
  let (data, source) := (drawTick replay.system.layout).run replay.source
  let (assembled, assembleTime) ← timed watch fun () =>
    replay.system.updateBarrier data.slacks data.multipliers
  let () ← succeed assembled.result
  let system := assembled.state
  let (factored, factorizeTime) ← timed watch fun () =>
    replay.session.factorize system.values
  let factored ← unfault factored
  let summary ← succeed factored.result
  let worstRatio := Scalar.larger replay.worstRatio summary.pivotRatio
  let (solved, solveTime) ← timed watch fun () =>
    solveBoth factored.state data
  let solved ← unfault solved
  let () ← succeed solved.result
  let (session, x₁, x₂) := solved.state
  let timers : Timers :=
    { assemble := assembleTime, factorize := factorizeTime
      solve := solveTime, check := .zero }
  if check then
    let (checked, checkTime) ← timed watch fun () =>
      checkBoth session data x₁ x₂
    let (session, norms) ← unfault checked
    let (norm₁, norm₂) ← succeed norms
    let worstResidual :=
      Scalar.larger (Scalar.larger replay.worstResidual norm₁) norm₂
    return (⟨system, session, source, worstRatio, worstResidual⟩,
      { timers with check := checkTime })
  else
    return (⟨system, session, source, worstRatio, replay.worstResidual⟩,
      timers)

/-- The given number of ticks; their times come latest first. -/
def ticks (watch : Stopwatch m) (check : Bool) :
    Nat → Replay → List Timers → Run m (Replay × List Timers)
  | 0, replay, times => return (replay, times)
  | count + 1, replay, times => do
      let (replay, timers) ← tick watch check replay
      ticks watch check count replay (timers :: times)

def settingsFor (options : Options) (settings : Settings Float) :
    Settings Float :=
  let usual := if settings.staticReg > 0 then settings.staticReg else 1e-8
  { settings with
    order := options.order.rule
    staticReg := options.staticReg.getD usual }

def setUp (options : Options) (settings : Settings Float) :
    Except Failure Replay := do
  let horizon := options.horizon
  if horizon.stages = 0 ∨ horizon.states = 0 then throw .emptyProblem
  let (model, source) := (horizon.drawModel).run
    (RandomSource.ofSeed options.seed.toUInt64)
  let blocks ← (horizon.blocks model).mapError .fault
  let (system, _) ← (NewtonSystem.assemble horizon.layout blocks).mapError
    .assembling
  let started ← (Session.start system.pattern system.signs
    (settingsFor options settings)).mapError .fault
  let (session, _) ← started.mapError .planning
  return ⟨system, session, source, 0, 0⟩

end QuasiDefinite.Bench
