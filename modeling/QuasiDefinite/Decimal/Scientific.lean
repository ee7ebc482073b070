import QuasiDefinite.Decimal.Binary

namespace QuasiDefinite.Decimal

namespace Binary

/-- `places + 1` digits of the magnitude and the power of ten of the first. -/
def significant (value : Binary) (places : Nat) : Nat × Int :=
  let lead := value.decimalPoint - 1
  let (top, bottom) := value.scaled (lead - places)
  let rounded := roundDiv top bottom
  if rounded = tenTo (places + 1) then (tenTo places, lead + 1)
  else (rounded, lead)

end Binary

private def negativeMark (value : Float) : String :=
  if value.toBits >>> 63 == 0 then "" else "-"

private def pointed (places digits : Nat) : String :=
  let written := Nat.toDigits 10 digits
  let padded := List.replicate (places + 1 - written.length) '0' ++ written
  String.ofList (match padded.take 1, padded.drop 1 with
    | lead, [] => lead
    | lead, fraction => lead ++ '.' :: fraction)

private def integerText (value : Int) : String :=
  (if value < 0 then "-" else "") ++ toString value.natAbs

def scientific (places : Nat) (value : Float) : String :=
  if value.isNaN then "NaN"
  else if value.isInf then negativeMark value ++ "inf"
  else
    let magnitude := Binary.ofBits value.toBits
    let (digits, power) :=
      if magnitude.mantissa = 0 then (0, 0) else magnitude.significant places
    negativeMark value ++ pointed places digits ++ "e" ++ integerText power

def fixed (places top bottom : Nat) : String :=
  let written := Nat.toDigits 10 (roundDiv (top * tenTo places) bottom)
  let padded := List.replicate (places + 1 - written.length) '0' ++ written
  let whole := padded.length - places
  String.ofList (match padded.drop whole with
    | [] => padded
    | fraction => padded.take whole ++ '.' :: fraction)

end QuasiDefinite.Decimal
