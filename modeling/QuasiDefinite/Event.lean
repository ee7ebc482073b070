import QuasiDefinite.Factor.Summary
import QuasiDefinite.NewtonSystem.Block

namespace QuasiDefinite

inductive Level where
  | warn
  | info
  | debug
  | trace
  deriving Repr, DecidableEq

namespace Level

def name : Level → String
  | warn => "WARN"
  | info => "INFO"
  | debug => "DEBUG"
  | trace => "TRACE"

def rank : Level → Nat
  | warn => 0
  | info => 1
  | debug => 2
  | trace => 3

def shows (level other : Level) : Bool :=
  other.rank ≤ level.rank

end Level

inductive Event (α : Type) where
  | fellBack (reason : String)
  | planned (size matrixCount factorCount fillIn : Nat) (natural : Bool)
  | assembled (layout : Layout) (slots : Nat)
  | lifted (row : Nat) (raw kept : α)
  | warned (warning : Warning α)
  | refined (steps : Nat) (before after : α)
  deriving Repr

namespace Event

def level {α : Type} : Event α → Level
  | fellBack .. => .warn
  | planned .. => .debug
  | assembled .. => .debug
  | lifted .. => .trace
  | warned .. => .warn
  | refined .. => .trace

def message : Event Float → String
  | fellBack reason =>
      s!"AMD ordering failed ({reason}), falling back to natural order"
  | planned size matrixCount factorCount fillIn natural =>
      s!"symbolic analysis: n={size} nnz(A)={matrixCount} "
        ++ s!"nnz(L)={factorCount} fill-in={fillIn} natural_order={natural}"
  | assembled layout slots =>
      s!"KKT assembled: n_x={layout.primal} n_eq={layout.equalities} "
        ++ s!"n_ineq={layout.inequalities} dim={layout.size} nnz={slots}"
  | lifted row raw kept =>
      s!"pivot {row} regularized: {Decimal.scientific 3 raw} -> "
        ++ s!"{Decimal.scientific 3 kept}"
  | warned warning => warning.message
  | refined steps before after =>
      s!"refinement: {steps} step(s), residual "
        ++ s!"{Decimal.scientific 3 before} -> {Decimal.scientific 3 after}"

end Event

variable {α : Type}

def Summary.events (summary : Summary α) (pivots : List (Pivot α)) :
    List (Event α) :=
  (pivots.zipIdx.filterMap fun (pivot, row) =>
    if pivot.lifted then some (.lifted row pivot.raw pivot.kept) else none)
    ++ (summary.warning.map Event.warned).toList

end QuasiDefinite
