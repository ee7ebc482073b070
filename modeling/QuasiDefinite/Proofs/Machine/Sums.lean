import QuasiDefinite.Proofs.Machine.Unpacked

namespace QuasiDefinite.Machine

open Float.Model (UnpackedFloat Format)
open Float.Model.UnpackedFloat

theorem pack_view (x : Float) : .ofModel (.pack (view x)) = x := by
  obtain ⟨bits, valid⟩ := x
  have packed : pack .binary64 (unpack .binary64 bits.toBitVec) =
      bits.toBitVec := by
    rw [pack_unpack]
    split
    · next isNaN =>
      obtain ⟨exponent, mantissa⟩ := of_decide_eq_true isNaN
      exact (valid.eq_packedNaN exponent mantissa).symm
    · rfl
  rw [view, Float.Model.unpack]
  congr 1
  rw [Float.Model.pack]
  congr 1
  exact congrArg UInt64.ofBitVec packed

theorem isZero_iff (x : Float) :
    Scalar.isZero x = true ↔ ∃ sign, view x = .zero sign := by
  have isZero : Scalar.isZero x =
      ((view x).beq (.zero .positive)) := rfl
  rw [isZero]
  cases view x with
  | notANumber => exact iff_of_false nofun nofun
  | infinity sign => cases sign <;> exact iff_of_false nofun nofun
  | zero sign => exact iff_of_true rfl ⟨sign, rfl⟩
  | finite sign => cases sign <;> exact iff_of_false nofun nofun

theorem zero_add_view (number : UnpackedFloat) :
    UnpackedFloat.add .binary64 (.zero .positive) number =
      match number with
      | .zero _ => .zero .positive
      | number => number := by
  cases number with
  | zero sign => cases sign <;> rfl
  | _ => rfl

theorem zero_add_eq (x : Float) :
    0 + x = if Scalar.isZero x then 0 else x := by
  have sum : 0 + x = .ofModel (.pack
      (UnpackedFloat.add .binary64 (.zero .positive) (view x))) := rfl
  rw [sum, zero_add_view]
  split
  · next sign found =>
    rw [if_pos ((isZero_iff x).mpr ⟨sign, found⟩)]
    rfl
  · next nonzero =>
    rw [if_neg, pack_view]
    intro isZero
    obtain ⟨sign, found⟩ := (isZero_iff x).mp isZero
    exact nonzero sign found

theorem isFinite_of_isZero {x : Float} (isZero : Scalar.isZero x = true) :
    Scalar.isFinite x = true := by
  obtain ⟨sign, found⟩ := (isZero_iff x).mp isZero
  have isFinite : Scalar.isFinite x = (view x).isFinite := rfl
  rw [isFinite, found]
  rfl

end QuasiDefinite.Machine
