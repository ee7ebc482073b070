import QuasiDefinite.Decimal.Shortest
import QuasiDefinite.Order.Rule
import QuasiDefinite.Scalar

namespace QuasiDefinite

structure Settings (α : Type) where
  order : OrderRule
  /-- Shifts every diagonal entry towards the sign of its row. -/
  staticReg : α
  /-- A pivot is lifted when its signed value is not above this. -/
  dynamicEps : α
  dynamicDelta : α
  /-- More regularization than this in one factorization raises a warning. -/
  warnThreshold : α
  checkFinite : Bool
  /-- Refinement ends at a residual norm not above this. -/
  refineTolerance : α
  refineLimit : Nat

namespace Settings

def standard : Settings Float where
  order := .minimumDegree
  staticReg := 0.0
  dynamicEps := 1e-13
  dynamicDelta := 2e-7
  warnThreshold := 1e-4
  checkFinite := true
  refineTolerance := 1e-12
  refineLimit := 3

def agree (left right : Settings Float) : Bool :=
  left.order.agree right.order && left.staticReg == right.staticReg &&
    left.dynamicEps == right.dynamicEps &&
    left.dynamicDelta == right.dynamicDelta &&
    left.warnThreshold == right.warnThreshold &&
    left.checkFinite == right.checkFinite &&
    left.refineTolerance == right.refineTolerance &&
    left.refineLimit == right.refineLimit

inductive Flaw (α : Type) where
  | staticReg (value : α)
  | dynamicEps (value : α)
  | dynamicDelta (value : α)
  | warnThreshold (value : α)
  | refineTolerance (value : α)
  deriving Repr, DecidableEq

def Flaw.message : Flaw Float → String
  | staticReg value =>
      s!"static_reg must be finite and non-negative, got "
        ++ s!"{Decimal.plain value}"
  | dynamicEps value =>
      s!"dynamic_reg_eps must be finite and non-negative, got "
        ++ s!"{Decimal.plain value}"
  | dynamicDelta value =>
      s!"dynamic_reg_delta must be finite and positive, got "
        ++ s!"{Decimal.plain value}"
  | warnThreshold value =>
      s!"reg_warn_threshold must be positive, got {Decimal.plain value}"
  | refineTolerance value =>
      s!"refine_tol must be non-negative, got {Decimal.plain value}"

variable {α : Type} [Scalar α]

open Scalar in
def validate (settings : Settings α) : Except (Flaw α) Unit := do
  if ! isFinite settings.staticReg || lt settings.staticReg 0 then
    throw (.staticReg settings.staticReg)
  if ! isFinite settings.dynamicEps || lt settings.dynamicEps 0 then
    throw (.dynamicEps settings.dynamicEps)
  if ! isFinite settings.dynamicDelta || le settings.dynamicDelta 0 then
    throw (.dynamicDelta settings.dynamicDelta)
  if isNaN settings.warnThreshold || le settings.warnThreshold 0 then
    throw (.warnThreshold settings.warnThreshold)
  if isNaN settings.refineTolerance || lt settings.refineTolerance 0 then
    throw (.refineTolerance settings.refineTolerance)

end Settings

end QuasiDefinite
