import Mathlib.Data.List.Nodup
import QuasiDefinite.Proofs.Elimination.Plan

namespace QuasiDefinite

open Elimination Compressed

namespace Plan

/-- The step of a row and its column of the factor, which occupies the slots
`first, ..., last - 1`: the step has one of them, which holds the row, and the
slots before it hold the earlier rows of the column. -/
structure Stores (plan : Plan) (row : Nat) (step : Step)
    (first last : Nat) : Prop where
  start : plan.lower.start[step.col]? = some first
  stop : plan.lower.start[step.col + 1]? = some last
  first_le : first ≤ step.slot
  lt_last : step.slot < last
  holds : plan.lower.index[step.slot]? = some row
  earlier : ∃ rows, (span first step.slot).mapM
      (Checked.get plan.lower.index) = .ok rows ∧ rows.Pairwise (· < ·) ∧
    ∀ other, other ∈ rows ↔ other < row ∧ step.col ∈ plan.rowColumns other

def factorEntries (plan : Plan) : List (Nat × Nat) :=
  (List.range plan.size).flatMap fun row =>
    (plan.rowColumns row).map fun col => (col, row)

variable {pattern : Pattern} {signs : Array Sign} {rule : OrderRule}
  {plan : Plan} {row col : Nat}

namespace Regular

theorem mem_factorEntries (regular : plan.Regular pattern signs) :
    (col, row) ∈ plan.factorEntries ↔ col ∈ plan.rowColumns row := by
  rw [factorEntries, List.mem_flatMap]
  constructor
  · rintro ⟨other, _, listed⟩
    obtain ⟨_, member, same⟩ := List.mem_map.mp listed
    cases same
    exact member
  · intro member
    exact ⟨row, List.mem_range.mpr (regular.lt_of_mem member).2,
      List.mem_map.mpr ⟨col, member, rfl⟩⟩

theorem nodup_factorEntries (regular : plan.Regular pattern signs) :
    plan.factorEntries.Nodup := by
  rw [factorEntries, List.nodup_flatMap]
  constructor
  · intro row _
    exact regular.nodup_rowColumns.map fun _ _ same => (Prod.ext_iff.mp same).1
  · refine List.nodup_range.imp fun {row other} differ => ?_
    intro entry listed listed'
    obtain ⟨_, _, rfl⟩ := List.mem_map.mp listed
    obtain ⟨_, _, same⟩ := List.mem_map.mp listed'
    exact differ (Prod.ext_iff.mp same).2.symm

theorem schedule_eq (regular : plan.Regular pattern signs) :
    plan.schedule = plan.factorEntries.map fun (col, row) =>
      ⟨col, factorSlot plan.rowLists col row⟩ := by
  rw [schedule, factorEntries, List.map_flatMap]
  refine List.flatMap_congr fun row member => ?_
  rw [regular.stepsAt_eq (List.mem_range.mp member), List.map_map]
  rfl

theorem slots_perm (regular : plan.Regular pattern signs) :
    (plan.schedule.map Step.slot).Perm (List.range plan.factorCount) := by
  rw [regular.schedule_eq, List.map_map]
  refine (List.perm_ext_iff_of_nodup ?_ List.nodup_range).mpr fun slot => ?_
  · refine regular.nodup_factorEntries.map_on ?_
    rintro ⟨col, row⟩ member ⟨col', row'⟩ member' same
    rw [regular.mem_factorEntries] at member member'
    exact Prod.ext_iff.mpr (regular.factorSlot_injective member member' same)
  · rw [List.mem_map, List.mem_range]
    constructor
    · rintro ⟨⟨col, row⟩, member, rfl⟩
      exact regular.factorSlot_lt (regular.mem_factorEntries.mp member)
    · intro inside
      obtain ⟨col, row, member, rfl⟩ := regular.exists_factorSlot inside
      exact ⟨(col, row), regular.mem_factorEntries.mpr member, rfl⟩

theorem mapM_index (regular : plan.Regular pattern signs) :
    (span (base (columnLists plan.rowLists) col)
        (factorSlot plan.rowLists col row)).mapM
        (Checked.get plan.lower.index) =
      .ok (rowsBefore plan.rowLists row col) := by
  have reads : ∀ other ∈ rowsBefore plan.rowLists row col,
      Checked.get plan.lower.index (factorSlot plan.rowLists col other) =
        .ok (id other) := fun other earlier => Checked.get_eq_ok_iff.mpr
    (regular.index_lower (mem_rowsBefore.mp earlier).2)
  rw [← map_factorSlot, List.mapM_map]
  exact (Checked.mapM_runs reads).trans (congrArg Except.ok (List.map_id _))

theorem stores (regular : plan.Regular pattern signs)
    (member : col ∈ plan.rowColumns row) :
    plan.Stores row ⟨col, factorSlot plan.rowLists col row⟩
      (base (columnLists plan.rowLists) col)
      (base (columnLists plan.rowLists) (col + 1)) := by
  obtain ⟨below, inside⟩ := regular.lt_of_mem member
  have insideCol : col < plan.size := Nat.lt_trans below inside
  refine ⟨regular.start_lower (Nat.le_of_lt insideCol),
    regular.start_lower insideCol, base_le_factorSlot, ?_,
    regular.index_lower member, rowsBefore plan.rowLists row col,
    regular.mapM_index, pairwise_rowsBefore, fun _ => mem_rowsBefore⟩
  have place := (List.getElem?_eq_some_iff.mp
    (getElem?_rowsBefore inside member)).1
  rw [base_columnLists_succ (regular.size_eq_length ▸ insideCol),
    ← regular.size_eq_length]
  exact Nat.add_lt_add_left place _

end Regular

/-- The steps of the rows and the columns of the factor hold the same entries.
The rows are those that the walks found. All steps together name every slot
exactly once; the slot of a step lies in the column of the step, holds the row,
and comes right behind the earlier rows of the column; and every column ascends,
below the diagonal. -/
theorem make_rows_match_columns (constructed : pattern.Constructed)
    (signs_size : signs.size = pattern.size)
    (perm : (rule.listing pattern).toList.Perm (List.range pattern.size)) :
    ∃ plan, make pattern signs rule = .ok (.ok plan) ∧
      plan.size = pattern.size ∧
      Elimination.rowColumns pattern.size plan.pattern.upper plan.parent =
        .ok plan.rows ∧
      (plan.schedule.map Step.slot).Perm (List.range plan.factorCount) ∧
      (∀ row, row < pattern.size →
        plan.rows.list row = .ok (plan.rowColumns row) ∧
        plan.steps row = .ok (plan.stepsAt row) ∧
        (plan.stepsAt row).map Step.col = plan.rowColumns row ∧
        ∀ step ∈ plan.stepsAt row,
          ∃ first last, plan.Stores row step first last) ∧
      ∀ col, col < pattern.size → ∃ rows, plan.lower.list col = .ok rows ∧
        rows.Pairwise (· < ·) ∧ (∀ row ∈ rows, col < row) ∧
          ∀ row, row ∈ rows ↔ col ∈ plan.rowColumns row := by
  obtain ⟨plan, made, regular, _⟩ := make_runs constructed signs_size perm
  refine ⟨plan, made, regular.size_eq, regular.found, regular.slots_perm, ?_,
    ?_⟩
  · intro row inside
    rw [← regular.size_eq] at inside
    refine ⟨regular.list_rows inside, regular.steps_eq_stepsAt inside, ?_, ?_⟩
    · rw [regular.stepsAt_eq inside, stepsOf, List.map_map]
      exact List.map_id _
    · intro step listed
      rw [regular.stepsAt_eq inside] at listed
      obtain ⟨col, member, rfl⟩ := List.mem_map.mp listed
      exact ⟨_, _, regular.stores member⟩
  · intro col inside
    obtain ⟨rows, listed, ascending, mem_iff⟩ := regular.list_lower inside
    refine ⟨rows, listed, ascending, fun row member => ?_, mem_iff⟩
    exact (regular.lt_of_mem ((mem_iff row).mp member)).1

theorem make_rows_match_columns_arrow :
    let pattern : Pattern := ⟨4, ⟨#[0, 1, 3, 5, 7], #[0, 0, 1, 0, 2, 0, 3]⟩⟩
    let signs : Array Sign := #[.positive, .negative, .positive, .negative]
    ∃ plan, make pattern signs (.supplied #[2, 0, 3, 1]) = .ok (.ok plan) ∧
      (plan.schedule.map Step.slot).Perm (List.range plan.factorCount) ∧
      ∀ row, row < 4 → plan.steps row = .ok (plan.stepsAt row) ∧
        ∀ step ∈ plan.stepsAt row,
          ∃ first last, plan.Stores row step first last := by
  intro pattern signs
  obtain ⟨plan, made, _, _, slots, stored, _⟩ :=
    @make_rows_match_columns pattern signs (.supplied #[2, 0, 3, 1])
      (.upper (by cbv : Pattern.ofUpperEntries 4 [(0, 1), (0, 2), (0, 3)] =
        .ok ⟨4, ⟨#[0, 1, 3, 5, 7], #[0, 0, 1, 0, 2, 0, 3]⟩⟩))
      rfl (by decide)
  refine ⟨plan, made, slots, fun row inside => ?_⟩
  obtain ⟨_, listed, _, stores⟩ := stored row inside
  exact ⟨listed, stores⟩

end Plan

end QuasiDefinite
