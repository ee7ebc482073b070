import QuasiDefinite.Bench.Replay
import QuasiDefinite.Settings.Environment

namespace QuasiDefinite.Bench

structure Latency where
  least : Duration
  mean : Duration
  /-- Not exceeded in 99 of 100 ticks. -/
  p99 : Duration
  greatest : Duration

namespace Latency

def ofSamples (samples : List Duration) : Option Latency :=
  let sorted := ((samples.map Duration.nanos).mergeSort).toArray
  let count := sorted.size
  if count = 0 then none
  else
    let rank := (99 * count + 99) / 100 - 1
    let sample (i : Nat) : Duration := ⟨sorted.getD i 0⟩
    some { least := sample 0
           mean := ⟨sorted.foldl (· + ·) 0 / count⟩
           p99 := sample rank
           greatest := sample (count - 1) }

end Latency

def padRight (width : Nat) (text : String) : String :=
  text ++ String.ofList (List.replicate (width - text.length) ' ')

def padLeft (width : Nat) (text : String) : String :=
  String.ofList (List.replicate (width - text.length) ' ') ++ text

def tableRow (name : String) (cells : List String) : String :=
  " ".intercalate (padRight 12 name :: cells.map (padLeft 10))

def microseconds (duration : Duration) : String :=
  Decimal.fixed 2 duration.nanos 1000

def latencyRow (name : String) (samples : List Duration) : List String :=
  match Latency.ofSamples samples with
  | none => []
  | some latency =>
      [tableRow name ([latency.least, latency.mean, latency.p99,
        latency.greatest].map microseconds)]

def sumOf (timers : Timers) : Duration :=
  ⟨total (Phase.all.map fun phase => (timers.get phase).nanos)⟩

def table (check : Bool) (times : List Timers) : List String :=
  let phases := Phase.all.filter fun phase => check || phase != .check
  tableRow "section" ["min [us]", "mean [us]", "p99 [us]", "max [us]"]
    :: String.ofList (List.replicate 56 '-')
    :: (phases.flatMap fun phase =>
        latencyRow phase.name (times.map (Timers.get · phase)))
    ++ latencyRow "tick" (times.map sumOf)

def field (name value : String) : String :=
  padRight 19 (name ++ ":") ++ value

def head (options : Options) (replay : Replay) : Checked (List String) := do
  let horizon := options.horizon
  let layout := replay.system.layout
  let plan := replay.session.plan
  let dimension := s!"{layout.size} (x={layout.primal}, "
    ++ s!"s=z={layout.inequalities}, y={layout.equalities})"
  return ["KKT Factorization Benchmark",
    "===========================",
    "",
    field "Stages" (toString horizon.stages),
    field "State / input" s!"{horizon.states} / {horizon.inputs}",
    field "KKT dimension" dimension,
    field "Ordering" options.order.name,
    field "Static reg"
      (Decimal.scientific 1 replay.session.settings.staticReg),
    field "nnz(A upper)" (toString plan.matrixCount),
    field "nnz(L)" (toString plan.factorCount),
    field "Fill-in" (toString (← plan.fillIn)),
    field "Factor flops" (toString (← plan.workload)),
    ""]

def foot (check : Bool) (replay : Replay) : List String :=
  let counters := replay.session.counters
  ["",
    field "Factorizations" (toString counters.factorizations),
    field "Solves" (toString counters.solves),
    field "Reg. pivots" (toString counters.lifted),
    field "Warnings" (toString counters.warnings),
    field "Worst |D| ratio" (Decimal.scientific 3 replay.worstRatio)]
  ++ if check then
      [field "Worst residual" (Decimal.scientific 3 replay.worstResidual)]
    else []

structure Output where
  exitCode : UInt32
  lines : List String
  errors : List String

def Failure.lines : Failure → List String
  | .emptyProblem => ["Error: stages and nx must be positive"]
  | .assembling error => caused "failed to assemble KKT system" error
  | .planning error => caused "symbolic analysis failed" error
  | .ticking error => ["Error: " ++ error.message]
  | .fault cause => ["Error: " ++ cause.message]
where
  caused (action : String) (error : Error Float) : List String :=
    ["Error: " ++ action, "", "Caused by:", "    " ++ error.message]

def Output.failed (lines : List String) (failure : Failure) :
    Except Fault Output :=
  match failure with
  | .fault fault => .error fault
  | failure => .ok ⟨1, lines, failure.lines⟩

def runWith {m : Type → Type} [Monad m] (watch : Stopwatch m)
    (options : Options) (settings : Settings Float) :
    m (Except Fault Output) := do
  match setUp options settings with
  | .error failure => return Output.failed [] failure
  | .ok replay =>
      match head options replay with
      | .error fault => return .error fault
      | .ok lines =>
          match ← (ticks watch options.check options.ticks replay []).run with
          | .error failure => return Output.failed lines failure
          | .ok (replay, times) =>
              return .ok ⟨0, lines ++ table options.check times.reverse
                ++ foot options.check replay, []⟩

def run {m : Type → Type} [Monad m] (watch : Stopwatch m)
    (arguments : List String) (environment : String → Option String) :
    m (Except Fault Output) :=
  match Options.read arguments with
  | .error .help => return .ok ⟨0, usage, []⟩
  | .error (.invalid argument) =>
      return .ok ⟨2, [], s!"error: invalid argument '{argument}'" :: usage⟩
  | .ok options =>
      runWith watch options (Settings.ofEnvironment environment)

end QuasiDefinite.Bench
