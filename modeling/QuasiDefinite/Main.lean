import QuasiDefinite.Bench.Report

namespace QuasiDefinite.Bench

def clock : Stopwatch IO where
  time phase := do
    let start ← IO.monoNanosNow
    let value ← IO.lazyPure phase
    let stop ← IO.monoNanosNow
    return (value, ⟨stop - start⟩)

end QuasiDefinite.Bench

open QuasiDefinite QuasiDefinite.Bench in
def main (arguments : List String) : IO UInt32 := do
  let known ← Settings.keys.filterMapM fun key => do
    return (← IO.getEnv key).map fun text => (key, text)
  match ← run clock arguments (fun key => List.lookup key known) with
  | .error fault =>
      IO.eprintln fault.message
      return 101
  | .ok output =>
      output.lines.forM IO.println
      output.errors.forM IO.eprintln
      return output.exitCode
