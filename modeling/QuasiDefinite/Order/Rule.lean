import QuasiDefinite.Order.MinimumDegree
import QuasiDefinite.Order.Permutation

namespace QuasiDefinite

/-- A routine fills in, for every k, the index that comes k-th, or it says why
it could not. -/
abbrev OrderRoutine :=
  (pattern : Pattern) → Except String (Vector Nat pattern.size)

/-- A routine is not asked for the order of an empty pattern. -/
def OrderRoutine.reply (routine : OrderRoutine) (pattern : Pattern) :
    Except String (Array Nat) :=
  if pattern.size = 0 then .ok #[]
  else (routine pattern).map Vector.toArray

inductive OrderRule where
  | natural
  | computed (routine : OrderRoutine)
  | supplied (order : Array Nat)

namespace OrderRule

def minimumDegree : OrderRule :=
  computed fun pattern =>
    let order := QuasiDefinite.minimumDegree pattern
    if sized : order.size = pattern.size then .ok ⟨order, sized⟩
    else .error s!"{order.size} of {pattern.size} indices in order"

/-- Do the rules agree? One routine is as good as another. -/
def agree : OrderRule → OrderRule → Bool
  | natural, natural => true
  | computed _, computed _ => true
  | supplied left, supplied right => left == right
  | _, _ => false

inductive Flaw where
  | length (found wanted : Nat)
  | notPermutation (flaw : Permutation.Flaw)
  deriving Repr, DecidableEq

def Flaw.message : Flaw → String
  | length found wanted =>
      s!"supplied ordering has length {found}, pattern dimension is {wanted}"
  | notPermutation flaw => flaw.message

def permutation (pattern : Pattern) : OrderRule →
    Except Flaw Permutation
  | natural => .ok (.identity pattern.size)
  | computed routine =>
      match routine.reply pattern with
      | .ok order => (Permutation.ofOrder order).mapError .notPermutation
      | .error _ => .ok (.identity pattern.size)
  | supplied order =>
      if order.size = pattern.size then
        (Permutation.ofOrder order).mapError .notPermutation
      else .error (.length order.size pattern.size)

/-- Why the natural order stands in for that of a routine, if it does. -/
def fallback (pattern : Pattern) : OrderRule → Option String
  | computed routine =>
      match routine.reply pattern with
      | .ok _ => none
      | .error reason => some reason
  | _ => none

end OrderRule

end QuasiDefinite
