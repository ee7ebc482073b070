import Mathlib.Algebra.BigOperators.Ring.Finset
import QuasiDefinite.Proofs.Exact.Regularize
import QuasiDefinite.Proofs.Factor.Sweep
import QuasiDefinite.Proofs.Sums

namespace QuasiDefinite

open Elimination

variable {K : Type} [ExactField K] {plan : Plan} {pattern : Pattern}
  {signs : Array Sign}

theorem Plan.within_comm (regular : plan.Regular pattern signs)
    (row other : Nat) :
    (plan.within (plan.rowColumns row) other).Perm
      (plan.within (plan.rowColumns other) row) := by
  refine (List.perm_ext_iff_of_nodup (regular.nodup_rowColumns.filter _)
    (regular.nodup_rowColumns.filter _)).mpr fun col => ?_
  exact mem_within.trans (and_comm.trans mem_within.symm)

namespace Numbers

variable {settings : Settings K} {matrix : Array K} {numbers : Numbers K}
  {row col : Nat}

/-- The entry of `L`, whose diagonal is one. -/
def unit (numbers : Numbers K) (plan : Plan) (row col : Nat) : K :=
  if row = col then 1
  else if col ∈ plan.rowColumns row then numbers.multiplier row col
  else 0

theorem unit_self : numbers.unit plan row row = 1 :=
  if_pos rfl

theorem unit_of_mem (regular : plan.Regular pattern signs)
    (member : col ∈ plan.rowColumns row) :
    numbers.unit plan row col = numbers.multiplier row col := by
  have below := (regular.lt_of_mem member).1
  rw [unit, if_neg (Nat.ne_of_gt below), if_pos member]

theorem unit_of_notMem (differs : row ≠ col)
    (absent : col ∉ plan.rowColumns row) : numbers.unit plan row col = 0 := by
  rw [unit, if_neg differs, if_neg absent]

theorem unit_mul (regular : plan.Regular pattern signs) (x : K) :
    numbers.unit plan row col * x = (if row = col then x else 0) +
      if col ∈ plan.rowColumns row then numbers.multiplier row col * x
      else 0 := by
  by_cases same : row = col
  · subst same
    have absent : row ∉ plan.rowColumns row := fun member =>
      Nat.lt_irrefl _ (regular.lt_of_mem member).1
    rw [unit_self, if_pos rfl, if_neg absent, one_mul, add_zero]
  · by_cases member : col ∈ plan.rowColumns row
    · rw [unit_of_mem regular member, if_neg same, if_pos member, zero_add]
    · rw [unit_of_notMem same member, if_neg same, if_neg member, zero_mul,
        add_zero]

theorem sum_unit (regular : plan.Regular pattern signs)
    (inside : row < plan.size) (x : Nat → K) :
    ∑ col ∈ Finset.range plan.size, numbers.unit plan row col * x col =
      x row + ((plan.rowColumns row).map fun col =>
        numbers.multiplier row col * x col).sum := by
  have small : ∀ col ∈ plan.rowColumns row, col < plan.size := by
    intro col member
    exact Nat.lt_trans (regular.lt_of_mem member).1 inside
  rw [Finset.sum_congr rfl fun col _ => unit_mul regular (x col),
    Finset.sum_add_distrib, Finset.sum_ite_eq,
    if_pos (Finset.mem_range.mpr inside),
    sum_map_eq_sum_range regular.nodup_rowColumns small]

theorem sum_unit_column (regular : plan.Regular pattern signs)
    (inside : col < plan.size) (x : Nat → K) :
    ∑ row ∈ Finset.range plan.size, numbers.unit plan row col * x row =
      x col + ((rowsBefore plan.rowLists plan.size col).map fun row =>
        numbers.multiplier row col * x row).sum := by
  have nodup : (rowsBefore plan.rowLists plan.size col).Nodup :=
    pairwise_rowsBefore.imp Nat.ne_of_lt
  have small : ∀ row ∈ rowsBefore plan.rowLists plan.size col,
      row < plan.size := fun row member => (mem_rowsBefore.mp member).1
  rw [Finset.sum_congr rfl fun row _ => unit_mul regular (x row),
    Finset.sum_add_distrib, Finset.sum_ite_eq',
    if_pos (Finset.mem_range.mpr inside), sum_map_eq_sum_range nodup small]
  congr 1
  apply Finset.sum_congr rfl
  intro row member
  apply if_congr _ rfl rfl
  rw [mem_rowsBefore, and_iff_right (Finset.mem_range.mp member)]
  exact Iff.rfl

theorem reduce_eq (start : K) (cols : List Nat) :
    numbers.reduce row col start cols = start - (cols.map fun via =>
      numbers.multiplier col via * numbers.entry row via).sum :=
  foldl_sub_eq ..

theorem entry_eq (nonzero : (numbers.pivot col).kept ≠ 0) :
    numbers.entry row col =
      (numbers.pivot col).kept * numbers.multiplier row col := by
  rw [multiplier, mul_left_comm, mul_one_div_cancel nonzero, mul_one]

theorem sum_unit_mul_unit (regular : plan.Regular pattern signs)
    (nonzero : ∀ k, k < plan.size → (numbers.pivot k).kept ≠ 0)
    {i k : Nat} (below : i < k) (inside : k < plan.size) :
    ∑ j ∈ Finset.range plan.size, numbers.unit plan i j *
        ((numbers.pivot j).kept * numbers.unit plan k j) =
      (numbers.pivot i).kept * numbers.unit plan k i +
        ((plan.within (plan.rowColumns k) i).map fun j =>
          numbers.multiplier i j * numbers.entry k j).sum := by
  have insideI := Nat.lt_trans below inside
  rw [sum_unit regular insideI,
    ((Plan.within_comm regular k i).map _).sum_eq, Plan.within,
    sum_map_filter]
  congr 2
  apply List.map_congr_left
  intro j member
  have before := (regular.lt_of_mem member).1
  by_cases inRow : j ∈ plan.rowColumns k
  · rw [unit_of_mem regular inRow,
      ← entry_eq (nonzero j (Nat.lt_trans before insideI)), if_pos]
    simpa using inRow
  · rw [unit_of_notMem (Nat.ne_of_gt (Nat.lt_trans before below)) inRow,
      mul_zero, mul_zero, if_neg]
    simpa using inRow

theorem product_below (regular : plan.Regular pattern signs)
    (solves : numbers.Solves plan settings matrix plan.size)
    (nonzero : ∀ k, k < plan.size → (numbers.pivot k).kept ≠ 0)
    {i k : Nat} (below : i < k) (inside : k < plan.size) :
    ∑ j ∈ Finset.range plan.size, numbers.unit plan i j *
        ((numbers.pivot j).kept * numbers.unit plan k j) =
      plan.valueAt matrix i k := by
  rw [sum_unit_mul_unit regular nonzero below inside]
  by_cases member : i ∈ plan.rowColumns k
  · rw [unit_of_mem regular member,
      ← entry_eq (nonzero i (Nat.lt_trans below inside)),
      solves.entry k i inside member, reduce_eq]
    ring
  · have apart : plan.within (plan.rowColumns k) i = [] := by
      rw [List.eq_nil_iff_forall_not_mem]
      intro j met
      obtain ⟨inRow, inCol⟩ := Plan.mem_within.mp met
      exact member (regular.mem_of_mem inCol inRow below)
    rw [unit_of_notMem (Nat.ne_of_gt below) member, apart,
      Plan.valueAt_eq_zero regular below member]
    simp

theorem product_diagonal (regular : plan.Regular pattern signs)
    (solves : numbers.Solves plan settings matrix plan.size)
    (nonzero : ∀ k, k < plan.size → (numbers.pivot k).kept ≠ 0)
    {k : Nat} (inside : k < plan.size) {sign : Sign}
    (signed : plan.signs[k]? = some sign) :
    ∑ j ∈ Finset.range plan.size, numbers.unit plan k j *
        ((numbers.pivot j).kept * numbers.unit plan k j) =
      plan.valueAt matrix k k + sign.value * settings.staticReg +
        ((numbers.pivot k).kept - (numbers.pivot k).raw) := by
  have raw : (numbers.pivot k).raw = numbers.reduce k k
      (plan.valueAt matrix k k + sign.value * settings.staticReg)
      (plan.rowColumns k) := by
    rw [solves.pivot k sign inside signed, Pivot.raw_regularize]
  have terms : (plan.rowColumns k).map (fun j => numbers.multiplier k j *
      ((numbers.pivot j).kept * numbers.unit plan k j)) =
      (plan.rowColumns k).map fun j =>
        numbers.multiplier k j * numbers.entry k j := by
    apply List.map_congr_left
    intro j member
    have before := (regular.lt_of_mem member).1
    rw [unit_of_mem regular member,
      ← entry_eq (nonzero j (Nat.lt_trans before inside))]
  rw [sum_unit regular inside, terms, unit_self, raw, reduce_eq]
  ring

end Numbers

end QuasiDefinite
