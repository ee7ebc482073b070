import QuasiDefinite.Proofs.Machine.Unpacked

namespace QuasiDefinite

/-- Are numbers read so that one and negation keep their meaning? -/
structure Faithful {α K : Type} [One α] [Neg α] [One K] [Neg K]
    (value : α → K) : Prop where
  one : value 1 = 1
  neg : ∀ x, value (-x) = -value x

namespace Machine

open Float.Model (UnpackedFloat)
open Float.Model.UnpackedFloat

/-- The exact value of a number; what is infinite or not a number counts as
zero. -/
def valueOf : UnpackedFloat → ℚ
  | .finite .positive mantissa exponent _ => mantissa * 2 ^ exponent
  | .finite .negative mantissa exponent _ => -(mantissa * 2 ^ exponent)
  | _ => 0

def value (x : Float) : ℚ :=
  valueOf (view x)

theorem valueOf_neg (number : UnpackedFloat) :
    valueOf number.neg = -valueOf number := by
  cases number with
  | finite sign mantissa exponent pos =>
      cases sign with
      | positive => rfl
      | negative => exact (neg_neg _).symm
  | _ => exact neg_zero.symm

theorem view_neg (x : Float) : view (-x) = (view x).neg := by
  obtain ⟨side, same⟩ := exists_resign_turn .negative (view x)
  have negated : view (-x) =
      view (.ofModel (.pack (turn .negative (view x)))) := rfl
  rw [negated, same, view_resign, ← same]
  rfl

theorem value_one : value 1 = 1 := by
  have unit : view 1 = .finite .positive (2 ^ 52) (-52) (by decide) := rfl
  rw [value, unit, valueOf]
  norm_num

theorem faithful_value : Faithful fun x : Float => (value x : ℝ) where
  one := by rw [value_one, Rat.cast_one]
  neg x := by rw [value, view_neg, valueOf_neg, Rat.cast_neg, value]

end Machine

end QuasiDefinite
