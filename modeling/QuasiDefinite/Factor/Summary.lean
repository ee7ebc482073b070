import QuasiDefinite.Decimal.Scientific
import QuasiDefinite.Settings.Basic

namespace QuasiDefinite

structure Pivot (α : Type) where
  raw : α
  kept : α
  /-- Was the pivot too small or on the wrong side of zero? -/
  lifted : Bool
  deriving Repr

structure Warning (α : Type) where
  magnitude : α
  pivots : Nat
  threshold : α
  deriving Repr

def Warning.message (warning : Warning Float) : String :=
  s!"regularization magnitude {Decimal.scientific 3 warning.magnitude} over "
    ++ s!"{warning.pivots} pivot(s) exceeds threshold "
    ++ s!"{Decimal.scientific 3 warning.threshold}"

structure Summary (α : Type) where
  lifted : Nat
  /-- The sum of the distances by which pivots were moved. -/
  magnitude : α
  staticReg : α
  leastPivot : α
  greatestPivot : α
  warning : Option (Warning α)
  deriving Repr

variable {α : Type} [Scalar α]

/-- The pivot to keep for a raw one: the raw one where it lies clearly on its
side of zero, else its magnitude, or `dynamicDelta` if that is larger, on its
side. -/
@[specialize]
def Pivot.regularize (settings : Settings α) (sign : Sign) (raw : α) :
    Pivot α :=
  if Scalar.le (sign.value * raw) settings.dynamicEps then
    let lift := Scalar.larger (Scalar.abs raw) settings.dynamicDelta
    ⟨raw, sign.value * lift, true⟩
  else ⟨raw, raw, false⟩

namespace Summary

def blank : Summary α :=
  ⟨0, 0, 0, 0, 0, none⟩

def totalMove (pivots : List (Pivot α)) : α :=
  pivots.foldl
    (fun total pivot =>
      if pivot.lifted then total + Scalar.abs (pivot.kept - pivot.raw)
      else total)
    0

def leastMagnitude (pivots : List (Pivot α)) : α :=
  if pivots.isEmpty then 0
  else (Scalar.least? (pivots.map fun pivot => Scalar.abs pivot.kept)).getD
    Scalar.infinity

def greatestMagnitude (pivots : List (Pivot α)) : α :=
  pivots.foldl
    (fun greatest pivot => Scalar.larger greatest (Scalar.abs pivot.kept)) 0

@[specialize]
def ofPivots (settings : Settings α) (pivots : List (Pivot α)) :
    Summary α :=
  let lifted := pivots.countP Pivot.lifted
  let magnitude := totalMove pivots
  { lifted, magnitude
    staticReg := settings.staticReg
    leastPivot := leastMagnitude pivots
    greatestPivot := greatestMagnitude pivots
    warning :=
      if Scalar.lt settings.warnThreshold magnitude then
        some ⟨magnitude, lifted, settings.warnThreshold⟩
      else none }

/-- How far the magnitudes of the pivots spread; without a bound when the least
of them is zero. -/
def pivotRatio (summary : Summary α) : α :=
  if Scalar.lt 0 summary.leastPivot then
    summary.greatestPivot / summary.leastPivot
  else Scalar.infinity

end Summary

end QuasiDefinite
