/-!
The arithmetic that a factorization runs on. The class holds operations only:
no law is assumed of them, so a statement over every `Scalar` also covers
arithmetic with infinities and values that are not numbers.
-/

namespace QuasiDefinite

class Scalar (α : Type) extends
    Zero α, One α, Neg α, Add α, Sub α, Mul α, Div α where
  abs : α → α
  sqrt : α → α
  /-- Stands in an answer for a quantity without a bound. -/
  infinity : α
  isNaN : α → Bool
  isFinite : α → Bool
  isZero : α → Bool
  lt : α → α → Bool
  le : α → α → Bool

instance : Scalar Float where
  zero := 0
  one := 1
  abs := Float.abs
  sqrt := Float.sqrt
  infinity := 1 / 0
  isNaN := Float.isNaN
  isFinite := Float.isFinite
  isZero x := x == 0
  lt x y := x < y
  le x y := x ≤ y

namespace Scalar

variable {α : Type} [Scalar α]

/-- The larger value; a value that is not a number gives way. -/
def larger (x y : α) : α :=
  if isNaN x || lt x y then y else x

def least? (values : List α) : Option α :=
  values.foldl
    (fun found value =>
      if isNaN value then found
      else match found with
        | none => some value
        | some best => some (if lt value best then value else best))
    none

/-- Sums start from the negative zero, which leaves every first term alone. -/
def sum (values : List α) : α :=
  values.foldl (· + ·) (-0)

end Scalar

/-- The side of zero on which a pivot belongs. -/
inductive Sign where
  | positive
  | negative
  deriving Repr, DecidableEq, Inhabited

namespace Sign

variable {α : Type} [Scalar α]

def value : Sign → α
  | positive => 1
  | negative => -1

/-- Does `pivot` lie strictly on this side of zero? -/
def admits (sign : Sign) (pivot : α) : Bool :=
  Scalar.lt 0 (sign.value * pivot)

end Sign

end QuasiDefinite
