import QuasiDefinite.Elimination.Rows
import QuasiDefinite.Elimination.Schedule
import QuasiDefinite.Order.Rule
import QuasiDefinite.Pattern.Relabel
import QuasiDefinite.Scalar

/-!
The plan of an elimination: all that follows from the pattern, the signs and
the order alone. It is made once, and every factorization of a matrix with this
pattern follows it.
-/

namespace QuasiDefinite

structure Plan where
  order : Permutation
  /-- The signs in elimination order. -/
  signs : Array Sign
  pattern : Pattern
  /-- The slot in elimination order of every slot of the pattern given. -/
  slot : Array Nat
  parent : Array (Option Nat)
  /-- The factor below its diagonal, by column. -/
  lower : Compressed
  /-- The columns of the factor below its diagonal, by row. -/
  rows : Compressed
  /-- The slot of every entry of the rows. -/
  slots : Array Nat
  deriving Repr, DecidableEq

namespace Plan

inductive Flaw where
  | signCount (found wanted : Nat)
  | order (flaw : OrderRule.Flaw)
  deriving Repr, DecidableEq

def Flaw.message : Flaw → String
  | signCount found wanted =>
      s!"row-sign metadata has length {found}, pattern dimension is {wanted}"
  | order flaw => flaw.message

def ofOrder (pattern : Pattern) (signs : Array Sign) (order : Permutation) :
    Checked Plan := do
  let ⟨moved, slot⟩ ← pattern.relabel order.place
  let parent ← Elimination.tree pattern.size moved.upper
  let rows ← Elimination.rowColumns pattern.size moved.upper parent
  let ⟨lower, slots⟩ ← Elimination.Schedule.ofRows pattern.size rows
  let signs ← order.order.mapM (Checked.get signs)
  return { order, signs, pattern := moved, slot, parent, lower, rows, slots }

def make (pattern : Pattern) (signs : Array Sign) (rule : OrderRule) :
    Checked (Except Flaw Plan) := do
  if signs.size ≠ pattern.size then
    return .error (.signCount signs.size pattern.size)
  match rule.permutation pattern with
  | .error flaw => return .error (.order flaw)
  | .ok order => return .ok (← ofOrder pattern signs order)

def size (plan : Plan) : Nat :=
  plan.pattern.size

def matrixCount (plan : Plan) : Nat :=
  plan.pattern.slotCount

def factorCount (plan : Plan) : Nat :=
  plan.lower.index.size

def fillIn (plan : Plan) : Checked Nat := do
  Checked.sub plan.factorCount (← Checked.sub plan.matrixCount plan.size)

/-- The number of multiplications and subtractions of one factorization: a
column with `c` entries causes `1 + ... + c` of them. -/
def workload (plan : Plan) : Checked Nat := do
  let lengths ← (List.range plan.size).mapM plan.lower.length
  return total (lengths.map fun c => c * (c + 1) / 2)

def diagonalSlot (plan : Plan) (col : Nat) : Checked Nat := do
  Checked.sub (← Checked.get plan.pattern.upper.start (col + 1)) 1

/-- The columns of a row and the slots of its entries, side by side. -/
def steps (plan : Plan) (row : Nat) : Checked (List Elimination.Step) := do
  let cols ← plan.rows.list row
  let slots ← Compressed.list ⟨plan.rows.start, plan.slots⟩ row
  return List.zipWith Elimination.Step.mk cols slots

end Plan

end QuasiDefinite
