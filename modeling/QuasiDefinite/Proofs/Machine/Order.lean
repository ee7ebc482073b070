import Mathlib.Data.Prod.Lex
import QuasiDefinite.Proofs.Machine.Pivots

namespace QuasiDefinite.Machine

open Float.Model (UnpackedFloat)

/-- The place of a number: its class, and in its class the exponent before the
mantissa. A negative number has the place opposite to that of its magnitude. -/
def place : UnpackedFloat → ℤ ×ₗ ℤ ×ₗ ℤ
  | .notANumber => toLex (0, toLex (0, 0))
  | .infinity .negative => toLex (-2, toLex (0, 0))
  | .finite .negative mantissa exponent _ =>
      toLex (-1, toLex (-exponent, -mantissa))
  | .zero _ => toLex (0, toLex (0, 0))
  | .finite .positive mantissa exponent _ =>
      toLex (1, toLex (exponent, mantissa))
  | .infinity .positive => toLex (2, toLex (0, 0))

theorem compare_cast (m m' : ℕ) : compare (m : ℤ) m' = compare m m' := by
  rw [← cmp_eq_compare, ← cmp_eq_compare]
  exact Nat.strictMono_cast.cmp_map_eq m m'

theorem compare_neg_neg (e e' : ℤ) :
    compare (-e) (-e') = (compare e e').swap := by
  rw [← cmp_eq_compare, ← cmp_eq_compare, cmp_swap]
  exact StrictAnti.cmp_map_eq (fun _ _ => neg_lt_neg) e e'

theorem compare_eq {x y : UnpackedFloat} (isNumber : x.isNaN = false)
    (isNumber' : y.isNaN = false) :
    x.compare y = some (compare (place x) (place y)) := by
  cases x with
  | notANumber => cases isNumber
  | infinity side => cases y with
    | notANumber => cases isNumber'
    | infinity side' => cases side <;> cases side' <;> rfl
    | zero => cases side <;> rfl
    | finite side' => cases side <;> cases side' <;> rfl
  | zero => cases y with
    | notANumber => cases isNumber'
    | infinity side' => cases side' <;> rfl
    | zero => rfl
    | finite side' => cases side' <;> rfl
  | finite side mantissa exponent => cases y with
    | notANumber => cases isNumber'
    | infinity side' => cases side <;> cases side' <;> rfl
    | zero => cases side <;> rfl
    | finite side' mantissa' exponent' => cases side with
      | negative => cases side' with
        | negative =>
            refine congrArg some ?_
            rw [Ordering.swap_then, ← compare_cast, ← compare_neg_neg,
              ← compare_neg_neg]
            rfl
        | positive => rfl
      | positive => cases side' with
        | negative => rfl
        | positive =>
            refine congrArg some ?_
            rw [← compare_cast]
            rfl

theorem isNumber_of_compare {x y : UnpackedFloat} {ordering : Ordering}
    (compares : x.compare y = some ordering) :
    x.isNaN = false ∧ y.isNaN = false := by
  constructor
  · cases x with
    | notANumber => cases compares
    | infinity | zero | finite => rfl
  · cases y with
    | notANumber => cases x with
      | notANumber | zero => cases compares
      | infinity side => cases side <;> cases compares
      | finite side => cases side <;> cases compares
    | infinity | zero | finite => rfl

variable {x y z : Float}

theorem lt_eq_true_iff : Scalar.lt x y = true ↔ x.isNaN = false ∧
    y.isNaN = false ∧ place (view x) < place (view y) := by
  rw [lt_eq, UnpackedFloat.lt, beq_iff_eq]
  constructor
  · intro compares
    obtain ⟨isNumber, isNumber'⟩ := isNumber_of_compare compares
    rw [compare_eq isNumber isNumber', Option.some_inj,
      compare_lt_iff_lt] at compares
    exact ⟨isNumber, isNumber', compares⟩
  · rintro ⟨isNumber, isNumber', below⟩
    exact (compare_eq isNumber isNumber').trans
      (congrArg some (compare_lt_iff_lt.mpr below))

theorem le_eq_true_iff : Scalar.le x y = true ↔ x.isNaN = false ∧
    y.isNaN = false ∧ place (view x) ≤ place (view y) := by
  rw [le_eq, UnpackedFloat.le, Option.any_eq_true]
  constructor
  · rintro ⟨ordering, compares, isLE⟩
    obtain ⟨isNumber, isNumber'⟩ := isNumber_of_compare compares
    rw [compare_eq isNumber isNumber', Option.some_inj] at compares
    rw [← compares, Ordering.isLE_iff_ne_gt, compare_gt_iff_gt, not_lt] at isLE
    exact ⟨isNumber, isNumber', isLE⟩
  · rintro ⟨isNumber, isNumber', below⟩
    refine ⟨_, compare_eq isNumber isNumber', ?_⟩
    rwa [Ordering.isLE_iff_ne_gt, compare_gt_iff_gt, not_lt]

protected theorem le_of_lt (below : Scalar.lt x y = true) :
    Scalar.le x y = true := by
  obtain ⟨isNumber, isNumber', below⟩ := lt_eq_true_iff.mp below
  exact le_eq_true_iff.mpr ⟨isNumber, isNumber', below.le⟩

protected theorem le_refl (isNumber : x.isNaN = false) :
    Scalar.le x x = true :=
  le_eq_true_iff.mpr ⟨isNumber, isNumber, le_refl _⟩

protected theorem lt_trans (below : Scalar.lt x y = true)
    (below' : Scalar.lt y z = true) : Scalar.lt x z = true := by
  obtain ⟨isNumber, _, below⟩ := lt_eq_true_iff.mp below
  obtain ⟨_, isNumber', below'⟩ := lt_eq_true_iff.mp below'
  exact lt_eq_true_iff.mpr ⟨isNumber, isNumber', below.trans below'⟩

theorem lt_of_not_le (isNumber : x.isNaN = false) (isNumber' : y.isNaN = false)
    (above : Scalar.le x y = false) : Scalar.lt y x = true := by
  refine lt_eq_true_iff.mpr ⟨isNumber', isNumber, not_le.mp fun below => ?_⟩
  exact ne_true_of_eq_false above
    (le_eq_true_iff.mpr ⟨isNumber, isNumber', below⟩)

end QuasiDefinite.Machine
