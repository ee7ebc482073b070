import Mathlib.Algebra.BigOperators.Intervals
import QuasiDefinite.Proofs.Elimination.Storage
import QuasiDefinite.Proofs.Sums

/-!
What an elimination costs. Row after row, an entry costs one reduction for each
earlier row of its column and one for the pivot; column after column, `c`
entries cost `1 + ... + c`. The two counts agree (`Regular.workload_eq`).
-/

namespace QuasiDefinite

namespace Elimination

variable {rows : List (List Nat)} {count col : Nat}

/-- In each of its columns a row adds one more reduction than there are rows. -/
theorem triangle_rowsBefore_succ :
    (rowsBefore rows (count + 1) col).length *
        ((rowsBefore rows (count + 1) col).length + 1) / 2 =
      (rowsBefore rows count col).length *
          ((rowsBefore rows count col).length + 1) / 2 +
        if col ∈ rowAt rows count then (rowsBefore rows count col).length + 1
        else 0 := by
  by_cases member : col ∈ rowAt rows count
  · rw [rowsBefore_succ_of_mem member, if_pos member, List.length_append,
      List.length_singleton, Nat.mul_comm, Nat.mul_comm (List.length _)]
    exact Nat.triangle_succ _
  · rw [rowsBefore_succ_of_notMem member, if_neg member]
    rfl

theorem sum_places (fits : RowsFit rows) (inside : count ≤ rows.length) :
    ∑ row ∈ Finset.range count, ((rowAt rows row).map fun col =>
        (rowsBefore rows row col).length + 1).sum =
      ∑ col ∈ Finset.range rows.length, (rowsBefore rows count col).length *
        ((rowsBefore rows count col).length + 1) / 2 := by
  induction count with
  | zero => simp [rowsBefore]
  | succ count ih =>
      obtain ⟨nodup, small⟩ := fits count inside
      rw [Finset.sum_range_succ, ih (Nat.le_of_succ_le inside),
        sum_map_eq_sum_range nodup small, ← Finset.sum_add_distrib]
      exact Finset.sum_congr rfl fun col _ => triangle_rowsBefore_succ.symm

end Elimination

namespace Plan

open Elimination Compressed

/-- The reductions that a step asks for: one for each slot before its own in its
column, and one for the pivot. -/
def cost (plan : Plan) (step : Step) : Checked Nat := do
  let first ← Checked.get plan.lower.start step.col
  return (← Checked.sub step.slot first) + 1

variable {pattern : Pattern} {signs : Array Sign} {plan : Plan}
  {row col : Nat}

namespace Regular

theorem cost_eq (regular : plan.Regular pattern signs)
    (member : col ∈ plan.rowColumns row) :
    plan.cost ⟨col, factorSlot plan.rowLists col row⟩ =
      .ok ((rowsBefore plan.rowLists row col).length + 1) := by
  have stores := regular.stores member
  rw [cost, Checked.get_eq_ok_iff.mpr stores.start, Checked.ok_bind,
    Checked.sub_eq_ok stores.first_le, Checked.ok_bind, factorSlot,
    Nat.add_sub_cancel_left]
  rfl

theorem rowsFit (regular : plan.Regular pattern signs) :
    RowsFit plan.rowLists := by
  intro row inside
  refine ⟨regular.nodup_rowColumns, fun col member => ?_⟩
  exact Nat.lt_trans (regular.lt_of_mem member).1 inside

theorem length_lower (regular : plan.Regular pattern signs)
    (inside : col < plan.rowLists.length) :
    plan.lower.length col =
      .ok (rowsBefore plan.rowLists plan.rowLists.length col).length := by
  have sized : (columnLists plan.rowLists).length = plan.rowLists.length :=
    length_columnLists
  rw [regular.lower, Compressed.length,
    get_start (sized ▸ Nat.le_of_lt inside), Checked.ok_bind,
    get_start (sized ▸ inside), Checked.ok_bind, base_columnLists_succ inside,
    Checked.sub_eq_ok base_le_factorSlot, factorSlot, Nat.add_sub_cancel_left]

theorem workload_eq (regular : plan.Regular pattern signs) :
    ∃ costs, plan.schedule.mapM plan.cost = .ok costs ∧
      plan.workload = .ok costs.sum := by
  have length := regular.size_eq_length
  have costs : plan.schedule.mapM plan.cost =
      .ok (plan.factorEntries.map fun entry =>
        (rowsBefore plan.rowLists entry.2 entry.1).length + 1) := by
    rw [regular.schedule_eq, List.mapM_map]
    exact Checked.mapM_runs fun entry member =>
      regular.cost_eq (regular.mem_factorEntries.mp member)
  refine ⟨_, costs, ?_⟩
  rw [workload, Checked.mapM_runs fun col member =>
    regular.length_lower (length ▸ List.mem_range.mp member), Checked.ok_bind,
    total_eq_sum, List.map_map, sum_map_range, factorEntries, sum_map_flatMap,
    sum_map_range]
  simp only [List.map_map]
  rw [length]
  exact congrArg Except.ok (sum_places regular.rowsFit (Nat.le_refl _)).symm

end Regular

end Plan

end QuasiDefinite
