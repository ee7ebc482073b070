import QuasiDefinite.Checked

namespace QuasiDefinite

structure Duration where
  nanos : Nat
  deriving Repr, DecidableEq, Inhabited

namespace Duration

def zero : Duration :=
  ⟨0⟩

def perSecond : Nat :=
  1000000000

def seconds (duration : Duration) : Nat :=
  duration.nanos / perSecond

def subseconds (duration : Duration) : Nat :=
  duration.nanos % perSecond

def ofNanos (nanos : Nat) : Checked Duration :=
  if nanos / perSecond < 1 <<< 64 then .ok ⟨nanos⟩
  else .error (.tooLong (nanos / perSecond))

def ofParts (seconds nanos : Nat) : Checked Duration :=
  ofNanos (seconds * perSecond + nanos)

def add (left right : Duration) : Checked Duration :=
  ofNanos (left.nanos + right.nanos)

end Duration

inductive Phase where
  | assemble
  | factorize
  | solve
  | check
  deriving Repr, DecidableEq

namespace Phase

def all : List Phase :=
  [assemble, factorize, solve, check]

def name : Phase → String
  | assemble => "assemble"
  | factorize => "factorize"
  | solve => "solve"
  | check => "check"

def ofName? (name : String) : Option Phase :=
  all.find? fun phase => phase.name == name

end Phase

structure Timers where
  assemble : Duration
  factorize : Duration
  solve : Duration
  check : Duration
  deriving Repr, DecidableEq

namespace Timers

def zero : Timers :=
  ⟨.zero, .zero, .zero, .zero⟩

def get (timers : Timers) : Phase → Duration
  | .assemble => timers.assemble
  | .factorize => timers.factorize
  | .solve => timers.solve
  | .check => timers.check

def set (timers : Timers) (phase : Phase) (duration : Duration) : Timers :=
  match phase with
  | .assemble => { timers with assemble := duration }
  | .factorize => { timers with factorize := duration }
  | .solve => { timers with solve := duration }
  | .check => { timers with check := duration }

@[simp] theorem get_set (timers : Timers) (phase : Phase)
    (duration : Duration) :
    (timers.set phase duration).get phase = duration := by
  cases phase <;> rfl

theorem get_set_of_ne (timers : Timers) {phase other : Phase}
    (duration : Duration) (different : other ≠ phase) :
    (timers.set phase duration).get other = timers.get other := by
  cases phase <;> cases other <;> simp_all [set, get]

def add (timers : Timers) (phase : Phase) (duration : Duration) :
    Checked Timers := do
  return timers.set phase (← (timers.get phase).add duration)

def total (timers : Timers) : Checked Duration :=
  Phase.all.foldlM (fun sum phase => sum.add (timers.get phase)) .zero

end Timers

end QuasiDefinite
