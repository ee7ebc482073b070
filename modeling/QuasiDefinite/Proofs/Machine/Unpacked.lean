import Mathlib
import QuasiDefinite.Scalar

/-!
The arithmetic of the machine, seen through its logical model: a number is
unpacked into a sign, a mantissa and an exponent, and comparisons and products
are read off there. A product with one or minus one is exact.
-/

namespace QuasiDefinite.Machine

open Float.Model (UnpackedFloat Format totalExponent)
open Float.Model.UnpackedFloat

def resign (sign : UnpackedFloat.Sign) : UnpackedFloat → UnpackedFloat
  | .notANumber => .notANumber
  | .infinity _ => .infinity sign
  | .zero _ => .zero sign
  | .finite _ mantissa exponent pos => .finite sign mantissa exponent pos

variable {spec : Format}

theorem resign_unpack (sign : UnpackedFloat.Sign) (bits : BitVec spec.numBits) :
    resign sign (unpack spec bits) = unpack spec
      (packComponents spec sign (unpackExponent bits)
        (unpackMantissa bits)) := by
  simp only [unpack, unpackExponent_packComponents,
    unpackMantissa_packComponents, unpackSign_packComponents,
    UnpackedFloat.Sign.ofBitVec_toBitVec]
  split
  · split <;> rfl
  · split
    · split <;> rfl
    · rfl

theorem unpack_pack_unpack (bits : BitVec Format.binary64.numBits) :
    unpack .binary64 (pack .binary64 (unpack .binary64 bits)) =
      unpack .binary64 bits := by
  rw [pack_unpack]
  split
  · next isNaN =>
    obtain ⟨exponent, mantissa⟩ := of_decide_eq_true isNaN
    rw [unpack_packedNaN, unpack]
    simp [exponent, mantissa]
  · rfl

theorem shiftRight_scaled (mantissa count : Nat) :
    (⟨2 ^ count * mantissa, false, false⟩ : ExtendedMantissa) >>> count =
      ⟨mantissa, false, false⟩ := by
  induction count generalizing mantissa with
  | zero =>
      rw [Nat.pow_zero, Nat.one_mul]
      rfl
  | succ count ih =>
      have step : (⟨2 ^ (count + 1) * mantissa, false, false⟩ :
          ExtendedMantissa) >>> (count + 1) =
          ((⟨2 ^ count * (2 * mantissa), false, false⟩ : ExtendedMantissa) >>>
            count).shiftRightOne := by
        rw [Nat.pow_succ, Nat.mul_assoc]
        rfl
      rw [step, ih]
      simp [ExtendedMantissa.shiftRightOne]

theorem log2_scaled {mantissa : Nat} (pos : 0 < mantissa) (count : Nat) :
    (2 ^ count * mantissa).log2 = count + mantissa.log2 := by
  induction count with
  | zero => simp
  | succ count ih =>
      rw [Nat.pow_succ', Nat.mul_assoc, Nat.log2_two_mul (by positivity), ih]
      omega

section Scaled

variable {mantissa : Nat} {exponent : Int}

theorem shiftToTargetExponent_scaled (pos : 0 < mantissa)
    (settled : spec.targetExponent (totalExponent mantissa exponent) = exponent)
    (count : Nat) :
    shiftToTargetExponent spec (2 ^ count * mantissa) (exponent - count)
      .exact = (⟨mantissa, false, false⟩, exponent) := by
  have total : totalExponent (2 ^ count * mantissa) (exponent - count) =
      totalExponent mantissa exponent := by
    rw [totalExponent, totalExponent, log2_scaled pos]
    omega
  have shift : (exponent - (exponent - count)).toNat = count := by omega
  rw [shiftToTargetExponent, total, settled, shiftToExponent]
  simp only [shift]
  rw [ExtendedMantissa.ofMantissaAndAccuracy, shiftRight_scaled,
    Int.sub_add_cancel]

/-- Nothing is rounded off when a settled number is scaled by a power of two. -/
theorem roundWithAccuracy_scaled (pos : 0 < mantissa)
    (settled : spec.targetExponent (totalExponent mantissa exponent) = exponent)
    (sign : UnpackedFloat.Sign) (count : Nat) :
    roundWithAccuracy spec sign (2 ^ count * mantissa) (exponent - count)
      .exact = .finite sign mantissa exponent pos := by
  have again := shiftToTargetExponent_scaled pos settled 0
  rw [Nat.pow_zero, Nat.one_mul, Int.natCast_zero, Int.sub_zero] at again
  rw [roundWithAccuracy, shiftToTargetExponent_scaled pos settled]
  dsimp only
  rw [show ExtendedMantissa.roundedMantissa ⟨mantissa, false, false⟩ = mantissa
    from rfl, again]
  exact dif_neg (Nat.ne_of_gt pos)

end Scaled

theorem targetExponent_binary64 (total : Int) :
    Format.binary64.targetExponent total = max (total - 53) (-1074) :=
  rfl

theorem totalExponent_of_normal (fraction : BitVec 52) (exponent : Int) :
    totalExponent (1#1 ++ fraction).toNat exponent = 53 + exponent := by
  have mantissa : (1#1 ++ fraction).toNat = 2 ^ 52 + fraction.toNat := by
    rw [BitVec.toNat_append, ← Nat.shiftLeft_add_eq_or_of_lt fraction.isLt,
      Nat.shiftLeft_eq]
    rfl
  have log2 : (2 ^ 52 + fraction.toNat).log2 = 52 := by
    rw [Nat.log2_eq_iff (by omega)]
    have small := fraction.isLt
    omega
  rw [totalExponent, mantissa, log2]
  omega

theorem totalExponent_of_subnormal {fraction : BitVec 52}
    (nonzero : fraction ≠ 0#52) (exponent : Int) :
    totalExponent fraction.toNat exponent ≤ 52 + exponent := by
  have pos : fraction.toNat ≠ 0 :=
    fun zero => nonzero (BitVec.eq_of_toNat_eq zero)
  have log2 := (Nat.log2_lt pos).mpr fraction.isLt
  rw [totalExponent]
  omega

theorem settled_unpack {bits : BitVec Format.binary64.numBits}
    {sign : UnpackedFloat.Sign} {mantissa : Nat} {exponent : Int}
    {pos : 0 < mantissa}
    (finite : unpack .binary64 bits = .finite sign mantissa exponent pos) :
    Format.binary64.targetExponent (totalExponent mantissa exponent) =
      exponent := by
  rw [targetExponent_binary64]
  have bias : (Format.binary64.exponentBias : Int) +
      (Format.binary64.mantissaBitsWithoutImplicit : Int) = 1075 := rfl
  rw [unpack, bias] at finite
  split at finite
  · split at finite <;> cases finite
  · split at finite
    · next subnormal =>
      split at finite
      · cases finite
      · next nonzero =>
        cases finite
        have total := totalExponent_of_subnormal nonzero
        have zero : (unpackExponent bits).toNat = 0 := by
          rw [subnormal]
          rfl
        rw [zero]
        have := total ((0 : Nat) - 1075 + 1)
        omega
    · next normal =>
      cases finite
      rw [totalExponent_of_normal]
      have nonzero : (unpackExponent bits).toNat ≠ 0 :=
        fun zero => normal (BitVec.eq_of_toNat_eq zero)
      omega

/-- A number turned over for the negative side. -/
def turn : Sign → UnpackedFloat → UnpackedFloat
  | .positive, number => number
  | .negative, number => number.neg

def signOf : Sign → UnpackedFloat.Sign
  | .positive => .positive
  | .negative => .negative

theorem mul_unit (sign : Sign)
    (bits : BitVec Format.binary64.numBits) :
    UnpackedFloat.mul .binary64
        (.finite (signOf sign) (2 ^ 52) (-52) (by decide))
        (unpack .binary64 bits) = turn sign (unpack .binary64 bits) := by
  cases found : unpack .binary64 bits with
  | notANumber => cases sign <;> rfl
  | infinity side => cases sign <;> cases side <;> rfl
  | zero side => cases sign <;> cases side <;> rfl
  | finite side mantissa exponent pos =>
      have exact := roundWithAccuracy_scaled pos (settled_unpack found)
        (signOf sign * side) 52
      rw [Int.sub_eq_add_neg, Int.add_comm] at exact
      refine exact.trans ?_
      cases sign <;> cases side <;> rfl

theorem exists_resign_turn (sign : Sign)
    (number : UnpackedFloat) :
    ∃ side, turn sign number = resign side number := by
  cases number with
  | notANumber => exact ⟨.positive, by cases sign <;> rfl⟩
  | infinity side => cases sign <;> exact ⟨_, rfl⟩
  | zero side => cases sign <;> exact ⟨_, rfl⟩
  | finite side => cases sign <;> exact ⟨_, rfl⟩

theorem abs_eq_resign (number : UnpackedFloat) :
    number.abs = resign .positive number := by
  cases number <;> rfl

/-! Numbers of the machine. -/

def view (x : Float) : UnpackedFloat :=
  x.toModel.unpack

theorem view_resign (side : UnpackedFloat.Sign) (x : Float) :
    view (.ofModel (.pack (resign side (view x)))) = resign side (view x) := by
  have packed : view (.ofModel (.pack (resign side (view x)))) =
      unpack .binary64 (pack .binary64 (resign side (view x))) := rfl
  rw [packed, view, Float.Model.unpack, resign_unpack, unpack_pack_unpack]

theorem view_value_mul (sign : Sign) (x : Float) :
    view (sign.value * x) = turn sign (view x) := by
  have unit : view sign.value =
      .finite (signOf sign) (2 ^ 52) (-52) (by decide) := by
    cases sign <;> rfl
  have product : view (sign.value * x) = unpack .binary64 (pack .binary64
      (UnpackedFloat.mul .binary64 (view sign.value) (view x))) := rfl
  obtain ⟨side, same⟩ := exists_resign_turn sign (view x)
  rw [product, unit]
  refine (congrArg (fun number => unpack .binary64 (pack .binary64 number))
    (mul_unit sign _)).trans ?_
  exact same ▸ view_resign side x

theorem view_abs (x : Float) : view (Scalar.abs x) = (view x).abs := by
  rw [abs_eq_resign, ← view_resign, ← abs_eq_resign]
  rfl

end QuasiDefinite.Machine
