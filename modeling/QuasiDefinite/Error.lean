import QuasiDefinite.Elimination.Plan
import QuasiDefinite.Pattern.Build
import QuasiDefinite.Settings.Basic
import QuasiDefinite.NewtonSystem.Block

namespace QuasiDefinite

inductive Quantity where
  | factorizeValues
  | solveRhs
  | solveOutput
  | solveWorkspace
  | residualRhs
  | residualSolution
  | residualWorkspace
  | gatheredMatrix
  | block (which : Block)
  | barrierSlacks
  | barrierMultipliers
  | barrierDiagonal
  | systemVector
  deriving Repr, DecidableEq

def Quantity.name : Quantity → String
  | factorizeValues => "factorize values"
  | solveRhs => "solve rhs"
  | solveOutput => "solve output"
  | solveWorkspace => "solve workspace"
  | residualRhs => "residual rhs"
  | residualSolution => "residual solution"
  | residualWorkspace => "residual workspace"
  | gatheredMatrix => "gather_values"
  | block which => which.name
  | barrierSlacks => "barrier slacks s"
  | barrierMultipliers => "barrier multipliers z"
  | barrierDiagonal => "barrier diagonal"
  | systemVector => "KKT vector"

inductive Misfit (α : Type) where
  | settings (flaw : Settings.Flaw α)
  | pattern (flaw : Pattern.Flaw)
  | plan (flaw : Plan.Flaw)
  | foreignEntry (row col : Nat)
  | missingEntry (row col : Nat)
  | structureChanged (block : Block)
  deriving Repr, DecidableEq

def Misfit.message : Misfit Float → String
  | settings flaw => flaw.message
  | pattern flaw => flaw.message
  | plan flaw => flaw.message
  | foreignEntry row col =>
      s!"entry ({row}, {col}) is not part of the fixed pattern"
  | missingEntry row col =>
      s!"KKT entry ({row}, {col}) missing from pattern"
  | structureChanged block =>
      s!"{block.name} changed its nonzero structure"

inductive Error (α : Type) where
  | configuration (misfit : Misfit α)
  | dimension (quantity : Quantity) (expected actual : Nat)
  | notFactored
  | nonFinite (slot : Nat)
  deriving Repr, DecidableEq

def Error.message : Error Float → String
  | configuration misfit => s!"Configuration error: {misfit.message}"
  | dimension quantity expected actual =>
      s!"Dimension mismatch in {quantity.name}: expected {expected}, got "
        ++ s!"{actual}"
  | notFactored => "No factorization available for residual check"
  | nonFinite slot => s!"Non-finite matrix value at slot {slot}"

variable {α : Type}

def checkLength (quantity : Quantity) (expected actual : Nat) :
    Except (Error α) Unit :=
  if expected = actual then .ok ()
  else .error (.dimension quantity expected actual)

end QuasiDefinite
