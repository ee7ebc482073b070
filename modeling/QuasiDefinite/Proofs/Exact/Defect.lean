import Mathlib.Algebra.Order.BigOperators.Ring.Finset
import QuasiDefinite.Proofs.Exact.Solve
import QuasiDefinite.Proofs.Factor.Answers

namespace QuasiDefinite

open Elimination Matrix

variable {K : Type} [ExactField K] {plan : Plan} {pattern : Pattern}
  {signs : Array Sign} {settings : Settings K} {values : Array K}
  {factor : Factor K} {numbers : Numbers K} {dense : Array K} {z : Nat → K}
  {row col : Nat}

def Numbers.shift (numbers : Numbers K) (plan : Plan) (signs : Array Sign)
    (settings : Settings K) (k : Nat) : K :=
  numbers.move k + sideAt signs plan.order.order k * settings.staticReg

namespace Factor.Holds

theorem productEntry_eq (regular : plan.Regular pattern signs)
    (holds : factor.Holds plan settings values numbers)
    (inside : row < plan.size) (reads : Reads dense plan.size z) :
    productEntry plan factor dense row =
      .ok (∑ j ∈ Finset.range plan.size, numbers.unit plan row j *
        ((numbers.pivot j).kept * z j)) := by
  let term (col : Nat) : K :=
    numbers.multiplier row col * ((numbers.pivot col).kept * z col)
  have steps (total : K) (col : Nat) (member : col ∈ plan.rowColumns row) :
      (do
        let value ← Checked.get factor.lower
          (factorSlot plan.rowLists col row)
        let pivot ← Checked.get factor.diagonal col
        return total + value * pivot * (← Checked.get dense col)) =
      Except.ok (total + term col) := by
    have small := Nat.lt_trans (regular.lt_of_mem member).1 inside
    rw [Checked.get_eq_ok_iff.mpr (holds.lower row col member),
      Checked.ok_bind, Checked.get_eq_ok_iff.mpr (holds.diagonal col small),
      Checked.ok_bind, reads.get_eq small]
    exact congrArg (fun value => Except.ok (total + value)) (mul_assoc ..)
  rw [productEntry, Checked.get_eq_ok_iff.mpr (holds.diagonal row inside),
    Checked.ok_bind, reads.get_eq inside, Checked.ok_bind,
    regular.steps_eq inside, Checked.ok_bind, stepsOf, List.foldlM_map,
    Numbers.sum_unit regular inside]
  exact (Checked.foldlM_eq_foldl steps _).trans
    (congrArg _ (foldl_add_eq term _ _))

section Column

variable (regular : plan.Regular pattern signs)
  (signs_size : signs.size = pattern.size)
  (validated : settings.validate = .ok ())
  (holds : factor.Holds plan settings values numbers)
  (inside : col < plan.size)

include regular signs_size validated holds inside

theorem defect_eq {slot : Nat}
    (reads : Reads dense plan.size (numbers.unit plan col))
    (found : plan.pattern.entries[slot]? = some (row, col)) :
    ∃ product value, productEntry plan factor dense row = .ok product ∧
      Checked.get factor.matrix slot = .ok value ∧
      (value - product) * (value - product) =
        if row = col then numbers.shift plan signs settings col ^ 2 else 0 := by
  have moved : plan.pattern.WellFormed := regular.relabels.wellFormed
  have upper := (moved.entry_le (List.mem_of_getElem? found)).1
  have insideMatrix : slot < factor.matrix.size := by
    rw [holds.fits.matrix_size, Plan.matrixCount, ← moved.length_entries]
    exact (List.getElem?_eq_some_iff.mp found).1
  have insideRow := Nat.lt_of_le_of_lt upper inside
  refine ⟨_, _, holds.productEntry_eq regular insideRow reads,
    Checked.get_eq_ok insideMatrix, ?_⟩
  have place : plan.pattern.entries[slot]? =
      some (min row col, max row col) := by
    rwa [Nat.min_eq_left upper, Nat.max_eq_right upper]
  rw [holds.sum_unit_eq regular signs_size validated insideRow inside,
    Plan.valueAt_of_entry regular place
      (Array.getElem?_eq_getElem insideMatrix)]
  split_ifs
  · rw [Numbers.shift]
    ring
  · ring

theorem slotDefects_eq
    (reads : Reads dense plan.size (numbers.unit plan col))
    {slots : List Nat} (nodup : slots.Nodup)
    (entries : ∀ slot, slot ∈ slots ↔
      ∃ row, plan.pattern.entries[slot]? = some (row, col)) (total : K) :
    slotDefects plan factor dense slots total =
      .ok (total + numbers.shift plan signs settings col ^ 2) := by
  have moved : plan.pattern.WellFormed := regular.relabels.wellFormed
  obtain ⟨here, found⟩ :=
    List.mem_iff_getElem?.mp (moved.diagonal_mem inside)
  let term (slot : Nat) : K :=
    if slot = here then numbers.shift plan signs settings col ^ 2 else 0
  have steps (total : K) (slot : Nat) (member : slot ∈ slots) :
      (do
        let row ← Checked.get plan.pattern.upper.index slot
        let product ← productEntry plan factor dense row
        let defect := (← Checked.get factor.matrix slot) - product
        return total + defect * defect) = Except.ok (total + term slot) := by
    obtain ⟨row, found'⟩ := (entries slot).mp member
    obtain ⟨product, value, multiplies, reads', squared⟩ :=
      defect_eq regular signs_size validated holds inside reads found'
    have same : row = col ↔ slot = here := by
      constructor
      · rintro rfl
        exact (List.getElem?_inj (List.getElem?_eq_some_iff.mp found').1
          moved.nodup_entries).mp (found'.trans found.symm)
      · rintro rfl
        cases found.symm.trans found'
        rfl
    rw [Checked.get_eq_ok_iff.mpr (moved.index_eq found'), Checked.ok_bind,
      multiplies, Checked.ok_bind, reads', Checked.ok_bind]
    dsimp only
    rw [squared, Checked.pure_eq_ok]
    simp only [term, same]
  have once : (slots.map term).sum =
      numbers.shift plan signs settings col ^ 2 := by
    rw [← List.sum_toFinset _ nodup, Finset.sum_ite_eq', if_pos]
    exact List.mem_toFinset.mpr ((entries here).mpr ⟨col, found⟩)
  rw [slotDefects, Checked.foldlM_eq_foldl steps, foldl_add_eq, once]

/-- A column adds its squared shift, and leaves the dense vector as it was. -/
theorem defectColumn_eq (reads : Reads dense plan.size fun _ => 0)
    (total : K) :
    ∃ new, defectColumn plan factor (total, dense) col =
        .ok (total + numbers.shift plan signs settings col ^ 2, new) ∧
      Reads new plan.size fun _ => 0 := by
  obtain ⟨slots, spread, new, nodup, entries, readsSpread, readsNew, split⟩ :=
    defectColumn_spreads regular holds.fits inside reads
  have readsUnit : Reads spread plan.size (numbers.unit plan col) := by
    refine readsSpread.congr fun i _ => ?_
    by_cases same : col = i
    · rw [if_pos same.symm, Numbers.unit, if_pos same]
    · rw [if_neg (Ne.symm same), Numbers.unit, if_neg same]
      split_ifs with member
      · exact holds.stored_eq member
      · rfl
  refine ⟨new, ?_, readsNew.congr fun i _ => ite_self 0⟩
  rw [split, slotDefects_eq regular signs_size validated holds inside readsUnit
    nodup entries]
  rfl

end Column

theorem defectNormSq_eq (regular : plan.Regular pattern signs)
    (signs_size : signs.size = pattern.size)
    (validated : settings.validate = .ok ())
    (holds : factor.Holds plan settings values numbers)
    {space : Workspace K} (fitsSpace : space.Fits plan.size) :
    ∃ next, defectNormSq plan factor space =
      .ok (∑ k : Fin pattern.size,
        numbers.shift plan signs settings k ^ 2, next) := by
  obtain ⟨⟨total, work⟩, ran, rfl, _⟩ := @Checked.foldlM_range_runs _ _
    (defectColumn plan factor) plan.size
    (fun count (state : K × Array K) =>
      state.1 = ∑ k ∈ Finset.range count,
        numbers.shift plan signs settings k ^ 2 ∧
      Reads state.2 plan.size fun _ => 0)
    (0, space.work.map fun _ => 0)
    ⟨rfl, reads_map_const fitsSpace.work_size 0⟩ (by
      rintro col ⟨total, dense⟩ inside ⟨rfl, reads⟩
      obtain ⟨new, ran, readsNew⟩ := defectColumn_eq regular signs_size
        validated holds inside reads _
      exact ⟨_, ran, (Finset.sum_range_succ ..).symm, readsNew⟩)
  refine ⟨{ space with work }, ?_⟩
  rw [defectNormSq, ran, Checked.ok_bind, regular.size_eq, Finset.sum_range]
  rfl

end Factor.Holds

/-- The squared norm of the defect is that of the shifts. -/
structure Factor.HasDefect (factor : Factor K) (plan : Plan)
    (pattern : Pattern) (signs : Array Sign) (settings : Settings K)
    (values : Array K) (moves : Fin pattern.size → K) (value : K) : Prop where
  eq_sum : value = ∑ k,
    (moves k + sideAt signs plan.order.order k * settings.staticReg) ^ 2
  eq_zero_iff : value = 0 ↔ factor.unitLower plan pattern.size *
      Matrix.diagonal (fun k : Fin pattern.size => factor.pivotAt k) *
      (factor.unitLower plan pattern.size)ᵀ =
    permutationMatrix K pattern.size plan.order.order *
      pattern.dense values *
      (permutationMatrix K pattern.size plan.order.order)ᵀ
  le : settings.staticReg = 0 → value ≤ factor.summary.magnitude ^ 2

theorem Factor.Decomposes.hasDefect {moves : Fin pattern.size → K}
    (decomposes : factor.Decomposes plan pattern signs settings values moves)
    (accounts : factor.summary.Accounts settings
      (fun k : Fin pattern.size => sideAt signs plan.order.order k)
      (fun k => factor.pivotAt k) moves) :
    factor.HasDefect plan pattern signs settings values moves
      (∑ k, (moves k +
        sideAt signs plan.order.order k * settings.staticReg) ^ 2) where
  eq_sum := rfl
  eq_zero_iff := by
    have total : settings.staticReg • Matrix.diagonal
          (fun k : Fin pattern.size => sideAt signs plan.order.order k) +
        Matrix.diagonal moves = Matrix.diagonal fun k => moves k +
          sideAt signs plan.order.order k * settings.staticReg := by
      rw [← Matrix.diagonal_smul, Matrix.diagonal_add]
      refine congrArg Matrix.diagonal (funext fun k => ?_)
      rw [Pi.smul_apply, smul_eq_mul]
      ring
    rw [decomposes.product, add_assoc, total, add_eq_left,
      Matrix.diagonal_eq_zero, funext_iff,
      Finset.sum_eq_zero_iff_of_nonneg fun k _ => sq_nonneg _]
    simp
  le none := by
    rw [none, accounts.magnitude]
    simp only [mul_zero, add_zero, ← sq_abs (moves _)]
    exact Finset.sum_sq_le_sq_sum_of_nonneg fun k _ => abs_nonneg _

end QuasiDefinite
