import Mathlib.Algebra.Order.Field.Rat
import Mathlib.Algebra.Order.Ring.Abs
import Mathlib.Data.Rat.Sqrt
import Mathlib.Tactic.Ring
import QuasiDefinite.Scalar

namespace QuasiDefinite

class ExactField (K : Type) extends Field K, LinearOrder K,
    IsStrictOrderedRing K where
  root : K → K
  unbounded : K

instance : ExactField ℚ where
  root := Rat.sqrt
  unbounded := 0

variable {K : Type} [ExactField K]

instance : Scalar K where
  toZero := inferInstance
  toOne := inferInstance
  toNeg := inferInstance
  toAdd := inferInstance
  toSub := inferInstance
  toMul := inferInstance
  toDiv := inferInstance
  abs x := |x|
  sqrt := ExactField.root
  infinity := ExactField.unbounded
  isNaN _ := false
  isFinite _ := true
  isZero x := decide (x = 0)
  lt x y := decide (x < y)
  le x y := decide (x ≤ y)

namespace Scalar

variable {x y : K}

@[simp] theorem abs_exact : Scalar.abs x = |x| :=
  rfl

@[simp] theorem isNaN_exact : Scalar.isNaN x = false :=
  rfl

@[simp] theorem isFinite_exact : Scalar.isFinite x = true :=
  rfl

@[simp] theorem isZero_exact : Scalar.isZero x = decide (x = 0) :=
  rfl

@[simp] theorem lt_exact : Scalar.lt x y = decide (x < y) :=
  rfl

@[simp] theorem le_exact : Scalar.le x y = decide (x ≤ y) :=
  rfl

@[simp] theorem larger_exact : Scalar.larger x y = max x y := by
  rw [larger, isNaN_exact, lt_exact, Bool.false_or]
  by_cases below : x < y
  · simp [below, max_eq_right below.le]
  · simp [below, max_eq_left (not_lt.mp below)]

end Scalar

theorem Scalar.sum_exact (values : List K) :
    Scalar.sum values = values.sum := by
  rw [Scalar.sum, neg_zero, List.sum_eq_foldl]

/-! Least and greatest values. -/

theorem isLeast_foldl_min {L : Type} [LinearOrder L] (start : L)
    (values : List L) :
    IsLeast {value | value ∈ start :: values} (values.foldl min start) := by
  induction values generalizing start with
  | nil => simp [IsLeast, lowerBounds]
  | cons value rest ih =>
      obtain ⟨member, lower⟩ := ih (min start value)
      constructor
      · rcases List.mem_cons.mp member with same | later
        · rw [List.foldl_cons, same]
          rcases min_choice start value with left | right
          · rw [left]
            exact List.mem_cons_self ..
          · rw [right]
            exact List.mem_cons_of_mem _ (List.mem_cons_self ..)
        · exact List.mem_cons_of_mem _ (List.mem_cons_of_mem _ later)
      · intro other inside
        have first := lower (List.mem_cons_self ..)
        rcases List.mem_cons.mp inside with rfl | inside
        · exact le_trans first (min_le_left ..)
        · rcases List.mem_cons.mp inside with rfl | later
          · exact le_trans first (min_le_right ..)
          · exact lower (List.mem_cons_of_mem _ later)

theorem isGreatest_foldl_max {L : Type} [LinearOrder L] (start : L)
    (values : List L) :
    IsGreatest {value | value ∈ start :: values} (values.foldl max start) :=
  @isLeast_foldl_min Lᵒᵈ _ start values

theorem Scalar.least?_cons (value : K) (rest : List K) :
    Scalar.least? (value :: rest) = some (rest.foldl min value) := by
  rw [least?, List.foldl_cons]
  simp only [isNaN_exact, lt_exact, Bool.false_eq_true, if_false,
    decide_eq_true_eq]
  induction rest generalizing value with
  | nil => rfl
  | cons next rest ih =>
      rw [List.foldl_cons, List.foldl_cons, ih, min_comm, min_def_lt]

namespace Sign

variable {sign : Sign}

@[simp] theorem value_mul_self : (sign.value : K) * sign.value = 1 := by
  cases sign with
  | positive => exact one_mul 1
  | negative => exact neg_one_mul (-1 : K) |>.trans (neg_neg 1)

@[simp] theorem abs_value : |(sign.value : K)| = 1 := by
  cases sign with
  | positive => exact abs_one
  | negative => exact (abs_neg 1).trans abs_one

end Sign

theorem foldl_sub_eq {ι : Type} (term : ι → K) (start : K) (entries : List ι) :
    entries.foldl (fun total entry => total - term entry) start =
      start - (entries.map term).sum := by
  induction entries generalizing start with
  | nil => simp
  | cons entry rest ih =>
      rw [List.foldl_cons, ih, List.map_cons, List.sum_cons]
      ring

theorem foldl_add_eq {ι : Type} (term : ι → K) (start : K) (entries : List ι) :
    entries.foldl (fun total entry => total + term entry) start =
      start + (entries.map term).sum := by
  induction entries generalizing start with
  | nil => simp
  | cons entry rest ih =>
      rw [List.foldl_cons, ih, List.map_cons, List.sum_cons, add_assoc]

end QuasiDefinite
