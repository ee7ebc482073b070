import QuasiDefinite.Decimal.Binary

namespace QuasiDefinite.Decimal

private def digitsValue (digits : List Char) : Nat :=
  digits.foldl (fun value digit => 10 * value + (digit.toNat - 48)) 0

/-- The sign and the rest: true means negative. -/
private def readSign : List Char → Bool × List Char
  | '-' :: rest => (true, rest)
  | '+' :: rest => (false, rest)
  | rest => (false, rest)

private def readExponent : List Char → Option Int
  | [] => some 0
  | mark :: rest =>
      if mark = 'e' ∨ mark = 'E' then
        let (negative, digits) := readSign rest
        if digits.isEmpty || !digits.all Char.isDigit then none
        else
          let size : Int := digitsValue digits
          some (if negative then -size else size)
      else none

private def readMagnitude (text : List Char) : Option (Nat × Int) := do
  let whole := text.takeWhile Char.isDigit
  let (fraction, rest) := match text.dropWhile Char.isDigit with
    | '.' :: more => (more.takeWhile Char.isDigit, more.dropWhile Char.isDigit)
    | rest => ([], rest)
  if whole.isEmpty && fraction.isEmpty then none
  else
    let power ← readExponent rest
    return (digitsValue (whole ++ fraction), power - fraction.length)

def binaryExponent (top bottom : Nat) : Int :=
  let estimate : Int := (top.log2 : Int) - bottom.log2
  if top <<< (-estimate).toNat < bottom <<< estimate.toNat then
    estimate - 1
  else estimate

/-- The bits of the binary64 number nearest to a positive quotient, of two
equally near the one with the even mantissa. The gap between numbers is
`2 ^ gap`; bits count numbers, so a mantissa that rounds up to the next power of
two needs no care. -/
def nearestBits (top bottom : Nat) : Nat :=
  let gap := max (binaryExponent top bottom - 52) (-1074)
  let mantissa :=
    roundDiv (top <<< (-gap).toNat) (bottom <<< gap.toNat)
  min (((gap + 1074).toNat <<< 52) + mantissa) 0x7FF0000000000000

/-- The number nearest to `digits * 10 ^ power`, infinity above the largest.
What lies far outside the range is settled by its size, so that no long power
of ten is built for it: `digits` is below `2 ^ (log2 + 1)`, and ten is more
than `2 ^ 3`. -/
def nearest (digits : Nat) (power : Int) : Float :=
  if digits = 0 then 0
  else if 400 < power then 1 / 0
  else if digits.log2 + 1 + 3 * (power + 400) < 0 then 0
  else
    Float.ofBits (nearestBits (digits * tenTo power.toNat)
      (tenTo (-power).toNat)).toUInt64

/-- Reads a number without blanks and separators: an optional sign, digits with
an optional point and an optional exponent, or a word in any case. -/
def readFloat? (text : List Char) : Option Float :=
  let (negative, rest) := readSign text
  let signed (value : Float) : Float := if negative then -value else value
  let word := String.ofList (rest.map Char.toLower)
  if word = "inf" ∨ word = "infinity" then some (signed (1 / 0))
  else if word = "nan" then some (0 / 0)
  else (readMagnitude rest).map fun (digits, power) =>
    signed (nearest digits power)

/-- Reads a count below `2 ^ 64`; one leading plus sign is allowed. -/
def readCount? (text : List Char) : Option Nat :=
  let digits := match text with
    | '+' :: rest => rest
    | rest => rest
  if digits.isEmpty || !digits.all Char.isDigit then none
  else
    let value := digitsValue digits
    if value < 1 <<< 64 then some value else none

end QuasiDefinite.Decimal
