import QuasiDefinite.Factor.Refine
import QuasiDefinite.Pattern.Values

namespace QuasiDefinite

structure Counters where
  factorizations : Nat
  solves : Nat
  lifted : Nat
  /-- The factorizations that raised a warning. -/
  warnings : Nat
  deriving Repr, DecidableEq

def Counters.zero : Counters :=
  ⟨0, 0, 0, 0⟩

structure Session (α : Type) where
  pattern : Pattern
  settings : Settings α
  plan : Plan
  factor : Factor α
  space : Workspace α
  counters : Counters

variable {α : Type} [Scalar α]

def Plan.event (plan : Plan) : Checked (Event α) := do
  return .planned plan.size plan.matrixCount plan.factorCount
    (← plan.fillIn) plan.order.isIdentity

def planFor (pattern : Pattern) (signs : Array Sign) (rule : OrderRule) :
    Checked (Except (Error α) (Plan × List (Event α))) := do
  match ← Plan.make pattern signs rule with
  | .error flaw => return .error (.configuration (.plan flaw))
  | .ok plan =>
      let warnings := (rule.fallback pattern).toList.map .fellBack
      return .ok (plan, warnings ++ [← plan.event])

namespace Session

def start (pattern : Pattern) (signs : Array Sign) (settings : Settings α) :
    Checked (Except (Error α) (Session α × List (Event α))) := do
  if let .error flaw := settings.validate then
    return .error (.configuration (.settings flaw))
  return (← planFor pattern signs settings.order).map fun (plan, events) =>
    ({ pattern, settings, plan
       factor := .fresh plan
       space := .ofSize plan.size
       counters := .zero }, events)

def size (session : Session α) : Nat :=
  session.plan.size

def lastSummary (session : Session α) : Option (Summary α) :=
  if session.factor.ready then some session.factor.summary else none

def countFactorization (counters : Counters) (summary : Summary α) :
    Counters :=
  { counters with
    factorizations := counters.factorizations + 1
    lifted := counters.lifted + summary.lifted
    warnings := counters.warnings + if summary.warning.isSome then 1 else 0 }

@[specialize]
def factorize (session : Session α) (values : Array α) :
    Checked (Reply α (Session α) (Summary α)) := do
  let ⟨pattern, settings, plan, factor, space, counters⟩ := session
  let reply ← factor.factorize plan settings values
  return reply.mapState fun factor =>
    { pattern, settings, plan, factor, space
      counters := match reply.result with
        | .ok summary => countFactorization counters summary
        | .error _ => counters }

def factorizeMatrix (session : Session α) (matrix : Sparse α) :
    Checked (Reply α (Session α) (Summary α)) :=
  match session.pattern.gather matrix with
  | .error error => .ok (.refuse session error)
  | .ok values => session.factorize values

/-! Answers for the matrix factored last. -/

@[specialize]
def solveInto (session : Session α) (rhs target : Array α) :
    Checked (Reply α (Session α × Array α) Unit) := do
  let reply ← session.factor.solve session.plan session.space rhs target
  let solved := match reply.result with
    | .ok () => 1
    | .error _ => 0
  return reply.mapState fun (space, target) =>
    ({ session with
       space
       counters.solves := session.counters.solves + solved }, target)

def solve (session : Session α) (rhs : Array α) :
    Checked (Reply α (Session α) (Array α)) := do
  let reply ← session.solveInto rhs (.replicate session.size 0)
  let (session, solution) := reply.state
  return ⟨reply.result.map fun () => solution, session, reply.events⟩

/-- Solves for two right hand sides, one after the other; the second is left
alone when the first is refused. -/
@[specialize]
def solvePair (session : Session α)
    (rhs₁ rhs₂ target₁ target₂ : Array α) :
    Checked (Reply α (Session α × Array α × Array α) Unit) := do
  let reply ← session.solveInto rhs₁ target₁
  let (session, target₁) := reply.state
  match reply.result with
  | .error error => return .refuse (session, target₁, target₂) error
  | .ok () =>
      return (← session.solveInto rhs₂ target₂).mapState
        fun (session, target₂) => (session, target₁, target₂)

def solveRefined (session : Session α) (rhs target : Array α) :
    Checked (Reply α (Session α × Array α) (Refinement α)) := do
  let reply ← session.solveInto rhs target
  let (session, target) := reply.state
  match reply.result with
  | .error error => return .refuse (session, target) error
  | .ok () =>
      let settings := session.settings
      let refined ← session.factor.refine session.plan session.space rhs
        target settings.refineTolerance settings.refineLimit
      return refined.mapState fun (space, target) =>
        ({ session with space }, target)

@[specialize]
def residualNormSq (session : Session α) (rhs x : Array α) :
    Checked (Reply α (Session α) α) := do
  let reply ← session.factor.residualNormSq session.plan session.space rhs x
  return reply.mapState fun space => { session with space }

def defectNormSq (session : Session α) :
    Checked (Reply α (Session α) α) := do
  let (value, space) ←
    session.factor.defectNormSq session.plan session.space
  return .answer { session with space } value

def checkResidual (session : Session α) (rhs x : Array α) :
    Checked (Reply α (Session α) α) :=
  if session.factor.ready then session.residualNormSq rhs x
  else .ok (.refuse session .notFactored)

end Session

end QuasiDefinite
