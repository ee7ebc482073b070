import QuasiDefinite.Decimal.Binary

/-!
The shortest decimal of a binary64 number: the fewest digits that read back to
it, among those the nearest, and of two equally near the larger. Such a decimal
is written without an exponent.
-/

namespace QuasiDefinite.Decimal

/-- The number `digits * 10 ^ power`. -/
structure Digits where
  digits : Nat
  power : Int
  deriving Repr, DecidableEq

namespace Binary

/-- Does `candidate` round to this number? The candidates that do form an
interval around it, with its ends when the mantissa is even. -/
def readsBack (value : Binary) (candidate : Digits) : Bool :=
  let quarter : Binary := { value with exponent := value.exponent - 2 }
  let (_, bottom) := quarter.scaled candidate.power
  let unit := tenTo (-candidate.power).toNat <<< quarter.exponent.toNat
  let middle := 4 * value.mantissa
  let lower := (if value.narrowBelow then middle - 1 else middle - 2) * unit
  let upper := (middle + 2) * unit
  let here := candidate.digits * bottom
  if value.mantissa % 2 = 0 then decide (lower ≤ here ∧ here ≤ upper)
  else decide (lower < here ∧ here < upper)

/-- The nearest of the two neighbours on the grid `10 ^ power` that read
back. -/
def onGrid (value : Binary) (power : Int) : Option Digits :=
  let (top, bottom) := value.scaled power
  let low : Digits := ⟨top / bottom, power⟩
  let high : Digits := ⟨top / bottom + 1, power⟩
  match value.readsBack low, value.readsBack high with
  | true, true => some (if 2 * (top % bottom) < bottom then low else high)
  | true, false => some low
  | false, true => some high
  | false, false => none

/-- The magnitude itself: a power of two below one divides the power of ten with
the same exponent. -/
def exact (value : Binary) : Digits :=
  let power := min value.exponent 0
  let (top, bottom) := value.scaled power
  ⟨top / bottom, power⟩

/-- Seventeen digits always read back; the exact value stands in where the
search would end without an answer. -/
def shortest (value : Binary) : Digits :=
  let point := value.decimalPoint
  ((List.range 17).findSome? fun (places : Nat) =>
    value.onGrid (point - (places + 1))).getD value.exact

end Binary

namespace Digits

def text (digits : Nat) : String :=
  String.ofList (Nat.toDigits 10 digits)

private def zeros (count : Nat) : List Char :=
  List.replicate count '0'

private def trimFraction (fraction : List Char) : List Char :=
  match (fraction.reverse.dropWhile (· == '0')).reverse with
  | [] => []
  | kept => '.' :: kept

def positional (number : Digits) : String :=
  let written := Nat.toDigits 10 number.digits
  if 0 ≤ number.power then
    String.ofList (written ++ zeros number.power.toNat)
  else
    let places := (-number.power).toNat
    let padded := zeros (places + 1 - written.length) ++ written
    let whole := padded.length - places
    String.ofList (padded.take whole ++ trimFraction (padded.drop whole))

end Digits

private def signText (value : Float) : String :=
  if value.toBits >>> 63 == 0 then "" else "-"

def plain (value : Float) : String :=
  if value.isNaN then "NaN"
  else if value.isInf then signText value ++ "inf"
  else
    let magnitude := Binary.ofBits value.toBits
    signText value ++
      if magnitude.mantissa = 0 then "0" else magnitude.shortest.positional

end QuasiDefinite.Decimal
