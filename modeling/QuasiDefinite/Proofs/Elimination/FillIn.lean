import Mathlib.Data.Set.Card
import QuasiDefinite.Proofs.Elimination.Plan

namespace QuasiDefinite.Plan

open Elimination

variable {pattern : Pattern} {signs : Array Sign} {rule : OrderRule}
  {plan : Plan}

namespace Regular

theorem ncard_fill (regular : plan.Regular pattern signs) :
    Set.ncard {entry : Nat × Nat | entry.1 ∈ plan.rowColumns entry.2} =
      plan.factorCount := by
  let place := fun entry : Nat × Nat =>
    factorSlot plan.rowLists entry.1 entry.2
  have injective : Set.InjOn place
      {entry | entry.1 ∈ plan.rowColumns entry.2} := by
    rintro ⟨col, row⟩ member ⟨col', row'⟩ member' same
    exact Prod.ext_iff.mpr (regular.factorSlot_injective member member' same)
  have image : place '' {entry | entry.1 ∈ plan.rowColumns entry.2} =
      ↑(Finset.range plan.factorCount) := by
    ext slot
    rw [Finset.coe_range, Set.mem_Iio]
    constructor
    · rintro ⟨⟨col, row⟩, member, rfl⟩
      exact regular.factorSlot_lt member
    · intro small
      obtain ⟨col, row, member, rfl⟩ := regular.exists_factorSlot small
      exact ⟨(col, row), member, rfl⟩
  rw [← injective.ncard_image, image, Set.ncard_coe_finset,
    Finset.card_range]

theorem ncard_joins (regular : plan.Regular pattern signs) :
    Set.ncard {entry : Nat × Nat | entry.1 < entry.2 ∧
      pattern.Joins plan.order.order entry.1 entry.2} + plan.size =
      plan.matrixCount := by
  have moved := regular.relabels.wellFormed
  have mem_entries := fun i k => @Pattern.Relabels.mem_entries _ _ _
    regular.relabels regular.wellFormed regular.valid i k
  dsimp only at moved mem_entries
  let entries := plan.pattern.entries.toFinset
  have above : {entry : Nat × Nat | entry.1 < entry.2 ∧
      pattern.Joins plan.order.order entry.1 entry.2} =
      ↑(entries.filter fun entry => entry.1 < entry.2) := by
    ext ⟨row, col⟩
    rw [Finset.mem_coe, Finset.mem_filter, List.mem_toFinset]
    refine and_comm.trans (and_congr_left fun below => ?_)
    rw [← mem_entries, Nat.min_eq_left (Nat.le_of_lt below),
      Nat.max_eq_right (Nat.le_of_lt below)]
  have diagonal : entries.filter (fun entry => ¬ entry.1 < entry.2) =
      (Finset.range plan.size).image fun index => (index, index) := by
    ext ⟨row, col⟩
    rw [Finset.mem_filter, List.mem_toFinset, Finset.mem_image]
    constructor
    · rintro ⟨member, notBelow⟩
      obtain ⟨le, inside⟩ := moved.entry_le member
      obtain rfl : row = col := Nat.le_antisymm le (Nat.le_of_not_lt notBelow)
      exact ⟨row, Finset.mem_range.mpr inside, rfl⟩
    · rintro ⟨index, inside, same⟩
      cases same
      exact ⟨moved.diagonal_mem (Finset.mem_range.mp inside),
        Nat.lt_irrefl _⟩
  have count : entries.card = plan.matrixCount := by
    rw [List.toFinset_card_of_nodup moved.nodup_entries,
      moved.length_entries]
    rfl
  have split := entries.card_filter_add_card_filter_not
    fun entry => entry.1 < entry.2
  rw [diagonal, Finset.card_image_of_injective _ fun _ _ same =>
      (Prod.ext_iff.mp same).1, Finset.card_range] at split
  rw [above, Set.ncard_coe_finset, split, count]

theorem fillIn_eq (regular : plan.Regular pattern signs) :
    plan.fillIn = .ok (Set.ncard {entry : Nat × Nat |
      entry.1 ∈ plan.rowColumns entry.2 ∧
        ¬ pattern.Joins plan.order.order entry.1 entry.2}) := by
  have matrix := regular.ncard_joins
  have factor := regular.ncard_fill
  have finite :
      {entry : Nat × Nat | entry.1 ∈ plan.rowColumns entry.2}.Finite := by
    refine (Finset.finite_toSet
      (Finset.range plan.size ×ˢ Finset.range plan.size)).subset ?_
    rintro ⟨col, row⟩ member
    obtain ⟨below, inside⟩ := regular.lt_of_mem member
    simpa using And.intro (Nat.lt_trans below inside) inside
  have subset : {entry : Nat × Nat | entry.1 < entry.2 ∧
      pattern.Joins plan.order.order entry.1 entry.2} ⊆
      {entry | entry.1 ∈ plan.rowColumns entry.2} := by
    rintro ⟨col, row⟩ ⟨below, present⟩
    exact regular.mem_rowColumns.mpr (.entry below present)
  have rest : {entry : Nat × Nat | entry.1 ∈ plan.rowColumns entry.2 ∧
      ¬ pattern.Joins plan.order.order entry.1 entry.2} =
      {entry | entry.1 ∈ plan.rowColumns entry.2} \
        {entry | entry.1 < entry.2 ∧
          pattern.Joins plan.order.order entry.1 entry.2} := by
    ext ⟨col, row⟩
    refine and_congr_right fun member => not_congr ?_
    have fill := regular.mem_rowColumns.mp member
    exact ⟨fun present => ⟨fill.lt, present⟩, And.right⟩
  have le := Set.ncard_le_ncard subset finite
  rw [rest, Set.ncard_sdiff subset (finite.subset subset), factor, fillIn,
    Checked.sub_eq_ok (by omega), Checked.ok_bind,
    Checked.sub_eq_ok (by omega)]
  congr 1
  omega

end Regular

theorem make_rows_eq_fill (constructed : pattern.Constructed)
    (signs_size : signs.size = pattern.size)
    (perm : (rule.listing pattern).toList.Perm (List.range pattern.size)) :
    ∃ plan, make pattern signs rule = .ok (.ok plan) ∧
      plan.rows.start.size = pattern.size + 1 ∧
      (∀ row, row < pattern.size →
        plan.rows.list row = .ok (plan.rowColumns row)) ∧
      (∀ row, (plan.rowColumns row).Pairwise (· < ·)) ∧
      (∀ col row, col ∈ plan.rowColumns row ↔ col < row ∧
        PathBelow (pattern.Joins (rule.listing pattern)) col col row) ∧
      (∀ col row, col ∈ plan.rowColumns row ↔
        Fill (pattern.Joins (rule.listing pattern)) col row) ∧
      (∀ col, col < pattern.size → ∃ rows, plan.lower.list col = .ok rows ∧
        rows.Pairwise (· < ·) ∧
          ∀ row, row ∈ rows ↔ col ∈ plan.rowColumns row) ∧
      plan.fillIn = .ok (Set.ncard {entry : Nat × Nat |
        entry.1 ∈ plan.rowColumns entry.2 ∧
          ¬ pattern.Joins (rule.listing pattern) entry.1 entry.2}) := by
  obtain ⟨plan, made, regular, listed⟩ :=
    make_runs constructed signs_size perm
  rw [← listed]
  refine ⟨plan, made, regular.start_rows_size,
    fun row inside => regular.list_rows (regular.size_eq.symm ▸ inside),
    fun row => regular.pairwise_rowColumns, ?_, fun col row => regular.mem_rowColumns,
    fun col inside => regular.list_lower inside, regular.fillIn_eq⟩
  intro col row
  rw [regular.mem_rowColumns]
  exact fill_iff_path fun i k => Pattern.Joins.symm

theorem make_rows_eq_fill_arrow :
    let pattern : Pattern := ⟨4, ⟨#[0, 1, 3, 5, 7], #[0, 0, 1, 0, 2, 0, 3]⟩⟩
    let signs : Array Sign := #[.positive, .negative, .positive, .negative]
    let order : Array Nat := #[2, 0, 3, 1]
    ∃ plan, make pattern signs (.supplied order) = .ok (.ok plan) ∧
      ∀ col row, col ∈ plan.rowColumns row ↔
        Fill (pattern.Joins order) col row := by
  intro pattern signs order
  obtain ⟨plan, made, _, _, _, _, fill, _⟩ := @make_rows_eq_fill pattern signs
    (.supplied order)
    (.upper (by cbv : Pattern.ofUpperEntries 4 [(0, 1), (0, 2), (0, 3)] =
      .ok ⟨4, ⟨#[0, 1, 3, 5, 7], #[0, 0, 1, 0, 2, 0, 3]⟩⟩))
    rfl (by decide)
  exact ⟨plan, made, fill⟩

end QuasiDefinite.Plan
