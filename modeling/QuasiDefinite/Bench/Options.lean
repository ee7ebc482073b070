import QuasiDefinite.Decimal.Reading
import QuasiDefinite.Horizon.Problem

namespace QuasiDefinite.Bench

inductive OrderChoice where
  | natural
  | minimumDegree
  deriving Repr, DecidableEq

namespace OrderChoice

def rule : OrderChoice → OrderRule
  | natural => .natural
  | minimumDegree => .minimumDegree

def name : OrderChoice → String
  | natural => "Natural"
  | minimumDegree => "Amd"

def ofText? : String → Option OrderChoice
  | "natural" => some natural
  | "amd" => some minimumDegree
  | _ => none

end OrderChoice

structure Options where
  horizon : Horizon
  ticks : Nat
  order : OrderChoice
  /-- Takes the place of the static regularization of the settings. -/
  staticReg : Option Float
  seed : Nat
  check : Bool
  deriving Repr

inductive Usage where
  | help
  | invalid (argument : String)
  deriving Repr, DecidableEq

structure Given where
  stages : Option Nat
  states : Option Nat
  inputs : Option Nat
  ticks : Option Nat
  order : Option OrderChoice
  staticReg : Option Float
  seed : Option Nat
  check : Bool

namespace Given

def none : Given :=
  ⟨.none, .none, .none, .none, .none, .none, .none, false⟩

def once {β : Type} (given : Option β) (value : Option β) :
    Option (Option β) :=
  match given, value with
  | .none, some value => some (some value)
  | _, _ => .none

def withValue (given : Given) (name value : String) : Option Given :=
  let count := Decimal.readCount? value.toList
  match name with
  | "--stages" => (once given.stages count).map ({ given with stages := · })
  | "--nx" => (once given.states count).map ({ given with states := · })
  | "--nu" => (once given.inputs count).map ({ given with inputs := · })
  | "--ticks" => (once given.ticks count).map ({ given with ticks := · })
  | "--seed" => (once given.seed count).map ({ given with seed := · })
  | "--ordering" => (once given.order (OrderChoice.ofText? value)).map
      ({ given with order := · })
  | "--static-reg" =>
      (once given.staticReg (Decimal.readFloat? value.toList)).map
        ({ given with staticReg := · })
  | _ => .none

def withFlag (given : Given) (name : String) : Option Given :=
  if name = "--check" ∧ given.check = false then
    some { given with check := true }
  else .none

def options (given : Given) : Options where
  horizon :=
    { stages := given.stages.getD 20
      states := given.states.getD 12
      inputs := given.inputs.getD 6 }
  ticks := given.ticks.getD 1000
  order := given.order.getD .minimumDegree
  staticReg := given.staticReg
  seed := given.seed.getD 42
  check := given.check

end Given

def splitValue (argument : String) : Option (String × String) :=
  let chars := argument.toList
  match chars.dropWhile (· != '=') with
  | [] => none
  | _ :: value =>
      some (String.ofList (chars.takeWhile (· != '=')), String.ofList value)

def isOption (argument : String) : Bool :=
  match argument.toList with
  | '-' :: _ => true
  | _ => false

def readArguments (given : Given) : List String → Except Usage Given
  | [] => .ok given
  | argument :: rest =>
      if argument = "--help" ∨ argument = "-h" then .error .help
      else if argument = "--" ∧ rest.isEmpty then .ok given
      else if let some (name, value) := splitValue argument then
        match given.withValue name value with
        | some given => readArguments given rest
        | none => .error (.invalid argument)
      else if let some given := given.withFlag argument then
        readArguments given rest
      else match rest with
        | [] => .error (.invalid argument)
        | value :: rest =>
            if isOption value then .error (.invalid argument)
            else match given.withValue argument value with
              | some given => readArguments given rest
              | none => .error (.invalid argument)

def Options.read (arguments : List String) : Except Usage Options :=
  (readArguments .none arguments).map Given.options

def usage : List String :=
  ["Usage: [--stages N] [--nx N] [--nu N] [--ticks N] [--seed N]",
    "  [--ordering natural|amd] [--static-reg X] [--check]"]

end QuasiDefinite.Bench
