/-!
The exact value of a finite binary64 number and its place on a decimal grid.
Comparisons are made by cross multiplication of naturals, so nothing here
rounds.
-/

namespace QuasiDefinite.Decimal

/-- The magnitude `mantissa * 2 ^ exponent`. -/
structure Binary where
  mantissa : Nat
  exponent : Int
  /-- The gap to the number below is half the gap to the number above. -/
  narrowBelow : Bool
  deriving Repr, DecidableEq

/-- The grid of decimals has powers of ten as its gaps. -/
def tenTo (power : Nat) : Nat :=
  Nat.pow 10 power

namespace Binary

def ofBits (bits : UInt64) : Binary :=
  let biased := ((bits >>> 52) &&& 0x7FF).toNat
  let fraction := (bits &&& 0xFFFFFFFFFFFFF).toNat
  if biased = 0 then ⟨fraction, -1074, false⟩
  else ⟨(1 <<< 52) + fraction, (biased : Int) - 1075,
    fraction == 0 && decide (1 < biased)⟩

def numerator (value : Binary) : Nat :=
  value.mantissa <<< value.exponent.toNat

def denominator (value : Binary) : Nat :=
  1 <<< (-value.exponent).toNat

def scaled (value : Binary) (power : Int) : Nat × Nat :=
  (value.numerator * tenTo (-power).toNat,
    value.denominator * tenTo power.toNat)

def below10 (value : Binary) (power : Int) : Bool :=
  let (top, bottom) := value.scaled power
  decide (top < bottom)

/-- The position of the leading digit: the least power of ten above the
magnitude. The binary logarithm gives an estimate that is too small by at most
a few steps. -/
def decimalPoint (value : Binary) : Int :=
  let bits := (value.mantissa.log2 : Int) + value.exponent
  let estimate := bits * 30103 / 100000 - 1
  match (List.range 4).find? fun (step : Nat) =>
      value.below10 (estimate + step) with
  | some step => estimate + step
  | none => estimate + 4

end Binary

/-- The quotient rounded to the nearest natural, a tie to the even one. -/
def roundDiv (top bottom : Nat) : Nat :=
  let whole := top / bottom
  let rest := top % bottom
  if bottom < 2 * rest ∨ 2 * rest = bottom ∧ whole % 2 = 1 then whole + 1
  else whole

theorem roundDiv_near {top bottom : Nat} (positive : 0 < bottom) :
    2 * (roundDiv top bottom * bottom) ≤ 2 * top + bottom ∧
      2 * top ≤ 2 * (roundDiv top bottom * bottom) + bottom := by
  have split : bottom * (top / bottom) + top % bottom = top :=
    Nat.div_add_mod top bottom
  have small : top % bottom < bottom := Nat.mod_lt _ positive
  have commuted : top / bottom * bottom = bottom * (top / bottom) :=
    Nat.mul_comm ..
  have next : (top / bottom + 1) * bottom =
      bottom * (top / bottom) + bottom := by
    rw [Nat.add_mul, Nat.one_mul, commuted]
  simp only [roundDiv]
  split <;> simp only [commuted, next] <;> omega

theorem roundDiv_tie {top bottom : Nat} (tie : 2 * (top % bottom) = bottom) :
    roundDiv top bottom % 2 = 0 := by
  simp only [roundDiv, tie, Nat.lt_irrefl, false_or, true_and]
  generalize top / bottom = whole
  split <;> omega

end QuasiDefinite.Decimal
