import QuasiDefinite.Elimination.Plan
import QuasiDefinite.Proofs.Elimination.Rows
import QuasiDefinite.Proofs.Elimination.Schedule
import QuasiDefinite.Proofs.Pattern.Constructed
import QuasiDefinite.Proofs.Pattern.Relabel

namespace QuasiDefinite

open Elimination

namespace Pattern

/-- In elimination order the matrix has an entry in row `i` and column `k`. -/
def Joins (pattern : Pattern) (order : Array Nat) (i k : Nat) : Prop :=
  ∃ index index', order[i]? = some index ∧ order[k]? = some index' ∧
    (min index index', max index index') ∈ pattern.entries

variable {pattern : Pattern} {permutation : Permutation} {result : Relabelled}

theorem Joins.symm {order : Array Nat} {i k : Nat}
    (joins : pattern.Joins order i k) : pattern.Joins order k i := by
  obtain ⟨index, index', found, found', member⟩ := joins
  refine ⟨index', index, found', found, ?_⟩
  rwa [Nat.min_comm, Nat.max_comm]

namespace Relabels

theorem exists_origin (relabels : Relabels pattern permutation result)
    (wellFormed : pattern.WellFormed) {new : Nat} {entry : Nat × Nat}
    (found : result.pattern.entries[new]? = some entry) :
    ∃ slot row col row' col' : Nat, result.slot[slot]? = some new ∧
      pattern.entries[slot]? = some (row, col) ∧
      permutation.place[row]? = some row' ∧
      permutation.place[col]? = some col' ∧
      entry = (min row' col', max row' col') := by
  have inside : new < pattern.slotCount := by
    rw [← relabels.slotCount_eq, ← relabels.wellFormed.length_entries]
    exact (List.getElem?_eq_some_iff.mp found).1
  obtain ⟨slot, moved⟩ := relabels.slot_onto new inside
  have insideSlot : slot < pattern.entries.length := by
    rw [wellFormed.length_entries, ← relabels.slot_size]
    exact (Array.getElem?_eq_some_iff.mp moved).1
  have here := List.getElem?_eq_getElem insideSlot
  obtain ⟨new', row', col', moved', foundRow, foundCol, found'⟩ :=
    relabels.slot_entry slot _ _ here
  obtain rfl : new = new' := Option.some.inj (moved.symm.trans moved')
  exact ⟨slot, _, _, row', col', moved, here, foundRow, foundCol,
    Option.some.inj (found.symm.trans found')⟩

theorem slot_lt (relabels : Relabels pattern permutation result)
    (wellFormed : pattern.WellFormed) {slot new : Nat}
    (found : result.slot[slot]? = some new) : new < pattern.slotCount := by
  have inside : slot < pattern.entries.length := by
    rw [wellFormed.length_entries, ← relabels.slot_size]
    exact (Array.getElem?_eq_some_iff.mp found).1
  obtain ⟨new', _, _, found', _, _, here⟩ :=
    relabels.slot_entry slot _ _ (List.getElem?_eq_getElem inside)
  obtain rfl : new = new' := Option.some.inj (found.symm.trans found')
  rw [← relabels.slotCount_eq, ← relabels.wellFormed.length_entries]
  exact (List.getElem?_eq_some_iff.mp here).1

theorem exists_slot (relabels : Relabels pattern permutation result)
    (valid : permutation.Valid pattern.size) {i k index index' slot : Nat}
    (found : permutation.order[i]? = some index)
    (found' : permutation.order[k]? = some index')
    (here : pattern.entries[slot]? =
      some (min index index', max index index')) :
    ∃ new, result.slot[slot]? = some new ∧
      result.pattern.entries[new]? = some (min i k, max i k) := by
  obtain ⟨new, row', col', target, foundRow, foundCol, moved⟩ :=
    relabels.slot_entry slot _ _ here
  have place := (valid.inverse ..).mp found
  have place' := (valid.inverse ..).mp found'
  have same : (min row' col', max row' col') = (min i k, max i k) := by
    rcases Nat.le_total index index' with le | le
    · rw [Nat.min_eq_left le, place, Option.some.injEq] at foundRow
      rw [Nat.max_eq_right le, place', Option.some.injEq] at foundCol
      rw [foundRow, foundCol]
    · rw [Nat.min_eq_right le, place', Option.some.injEq] at foundRow
      rw [Nat.max_eq_left le, place, Option.some.injEq] at foundCol
      rw [foundRow, foundCol, Nat.min_comm, Nat.max_comm]
  exact ⟨new, target, same ▸ moved⟩

theorem mem_entries (relabels : Relabels pattern permutation result)
    (wellFormed : pattern.WellFormed)
    (valid : permutation.Valid pattern.size) {i k : Nat} :
    (min i k, max i k) ∈ result.pattern.entries ↔
      pattern.Joins permutation.order i k := by
  constructor
  · intro member
    obtain ⟨new, found⟩ := List.mem_iff_getElem?.mp member
    obtain ⟨slot, row, col, row', col', _, here, foundRow, foundCol, same⟩ :=
      relabels.exists_origin wellFormed found
    have member := List.mem_of_getElem? here
    obtain ⟨le, _⟩ := wellFormed.entry_le member
    have order := (valid.inverse ..).mpr foundRow
    have order' := (valid.inverse ..).mpr foundCol
    have joins : pattern.Joins permutation.order row' col' :=
      ⟨row, col, order, order',
        by rwa [Nat.min_eq_left le, Nat.max_eq_right le]⟩
    simp only [Prod.mk.injEq] at same
    have either : i = row' ∧ k = col' ∨ i = col' ∧ k = row' := by omega
    rcases either with ⟨rfl, rfl⟩ | ⟨rfl, rfl⟩
    · exact joins
    · exact joins.symm
  · rintro ⟨index, index', found, found', member⟩
    obtain ⟨slot, here⟩ := List.mem_iff_getElem?.mp member
    obtain ⟨_, _, moved⟩ := relabels.exists_slot valid found found' here
    exact List.mem_of_getElem? moved

theorem upperColumns (relabels : Relabels pattern permutation result)
    (wellFormed : pattern.WellFormed)
    (valid : permutation.Valid pattern.size) :
    UpperColumns (pattern.Joins permutation.order) pattern.size
      result.pattern.upper := by
  intro col inside
  rw [← relabels.size_eq] at inside
  obtain ⟨rows, stored, column, present⟩ :=
    relabels.wellFormed.exists_column inside
  refine ⟨rows, stored, fun row => ?_⟩
  have joins : row < col → ((row, col) ∈ result.pattern.entries ↔
      pattern.Joins permutation.order row col) := by
    intro below
    rw [← relabels.mem_entries wellFormed valid,
      Nat.min_eq_left (Nat.le_of_lt below),
      Nat.max_eq_right (Nat.le_of_lt below)]
  constructor
  · intro member
    rcases Nat.eq_or_lt_of_le (column.le_of_mem member) with rfl | below
    · exact .inl rfl
    · exact .inr ⟨below, (joins below).mp (present.mp member)⟩
  · rintro (rfl | ⟨below, joined⟩)
    · exact column.diagonal_mem
    · exact present.mpr ((joins below).mpr joined)

end Relabels

end Pattern

/-! What a plan holds. -/

namespace Plan

def rowLists (plan : Plan) : List (List Nat) :=
  plan.rows.toLists

/-- The columns below the diagonal in which row `row` of the factor has an
entry. -/
def rowColumns (plan : Plan) (row : Nat) : List Nat :=
  rowAt plan.rowLists row

def stepsAt (plan : Plan) (row : Nat) : List Step :=
  (plan.steps row).toOption.getD []

def schedule (plan : Plan) : List Step :=
  (List.range plan.size).flatMap plan.stepsAt

/-- A plan that was made for the pattern and the signs. -/
structure Regular (plan : Plan) (pattern : Pattern) (signs : Array Sign) :
    Prop where
  wellFormed : pattern.WellFormed
  valid : plan.order.Valid pattern.size
  relabels : pattern.Relabels plan.order ⟨plan.pattern, plan.slot⟩
  signs_size : plan.signs.size = pattern.size
  signs : ∀ k index : Nat, plan.order.order[k]? = some index →
    plan.signs[k]? = signs[index]?
  rows_length : plan.rowLists.length = pattern.size
  isRow : ∀ row, row < pattern.size →
    IsRow (pattern.Joins plan.order.order) row (plan.rowColumns row)
  lower : plan.lower = .ofLists (columnLists plan.rowLists)
  rows : plan.rows = .ofLists plan.rowLists
  slots : plan.slots = (Compressed.ofLists (slotLists plan.rowLists)).index
  found : Elimination.rowColumns pattern.size plan.pattern.upper plan.parent =
    .ok plan.rows

variable {pattern : Pattern} {signs : Array Sign} {order : Permutation}
  {rule : OrderRule} {plan : Plan}

theorem rowsFit_of_isRow {adjacent : Nat → Nat → Prop}
    {rows : List (List Nat)}
    (isRow : ∀ (row : Nat) (cols : List Nat), rows[row]? = some cols →
      IsRow adjacent row cols) : RowsFit rows := by
  intro row inside
  obtain ⟨ascending, mem_iff⟩ :=
    isRow row _ (List.getElem?_eq_getElem inside)
  rw [rowAt, List.getD, List.getElem?_eq_getElem inside, Option.getD_some]
  refine ⟨ascending.imp Nat.ne_of_lt, fun col member => ?_⟩
  exact Nat.lt_trans ((mem_iff col).mp member).lt inside

theorem ofOrder_runs (wellFormed : pattern.WellFormed)
    (signs_size : signs.size = pattern.size)
    (valid : order.Valid pattern.size) :
    ∃ plan, ofOrder pattern signs order = .ok plan ∧
      plan.Regular pattern signs ∧ plan.order = order := by
  obtain ⟨⟨moved, slot⟩, moves, relabels⟩ :=
    Pattern.relabel_runs wellFormed valid
  have columns := relabels.upperColumns wellFormed valid
  obtain ⟨parent, grows, parents⟩ := tree_runs columns
  obtain ⟨rows, found, length, isRow⟩ := rowColumns_runs columns parents
  obtain ⟨moved', signed, signs_size', signs'⟩ := valid.mapM_get_runs signs_size
  have fits := rowsFit_of_isRow isRow
  let plan : Plan :=
    { order, signs := moved', pattern := moved, slot, parent
      lower := .ofLists (columnLists rows)
      rows := .ofLists rows
      slots := (Compressed.ofLists (slotLists rows)).index }
  have lists : plan.rowLists = rows := Compressed.toLists_ofLists rows
  refine ⟨plan, ?_, ?_, rfl⟩
  · rw [ofOrder, moves, Checked.ok_bind]
    dsimp only
    rw [grows, Checked.ok_bind, found, Checked.ok_bind, ← length,
      Schedule.ofRows_runs fits, Checked.ok_bind]
    dsimp only
    rw [signed]
    rfl
  · refine ⟨wellFormed, valid, relabels, signs_size', signs', ?_, ?_, ?_, ?_,
      ?_, found⟩
    · rw [lists, length]
    · intro row inside
      rw [rowColumns, lists, rowAt, List.getD,
        List.getElem?_eq_getElem (length ▸ inside)]
      exact isRow row _ (List.getElem?_eq_getElem (length ▸ inside))
    · rw [lists]
    · rw [lists]
    · rw [lists]

theorem make_regular (constructed : pattern.Constructed)
    (made : make pattern signs rule = .ok (.ok plan)) :
    plan.Regular pattern signs ∧
      plan.order.order = rule.listing pattern ∧
      signs.size = pattern.size := by
  have wellFormed := Pattern.wellFormed_of_constructed constructed
  rw [make] at made
  split at made
  · cases made
  · next same =>
    have signs_size : signs.size = pattern.size := Decidable.not_not.mp same
    split at made
    · cases made
    · next order accepted =>
      obtain ⟨listed, valid⟩ := OrderRule.permutation_valid accepted
      rw [Checked.bind_eq_ok_iff] at made
      obtain ⟨found, ran, made⟩ := made
      cases made
      obtain ⟨plan', ran', regular, order_eq⟩ :=
        ofOrder_runs wellFormed signs_size valid
      obtain rfl : plan' = plan := Except.ok.inj (ran'.symm.trans ran)
      exact ⟨regular, order_eq ▸ listed, signs_size⟩

theorem make_runs (constructed : pattern.Constructed)
    (signs_size : signs.size = pattern.size)
    (perm : (rule.listing pattern).toList.Perm (List.range pattern.size)) :
    ∃ plan, make pattern signs rule = .ok (.ok plan) ∧
      plan.Regular pattern signs ∧
      plan.order.order = rule.listing pattern := by
  obtain ⟨order, accepted, listed, valid⟩ := OrderRule.permutation_runs perm
  obtain ⟨plan, ran, regular, rfl⟩ := ofOrder_runs
    (Pattern.wellFormed_of_constructed constructed) signs_size valid
  refine ⟨plan, ?_, regular, listed⟩
  rw [make, if_neg (not_not_intro signs_size), accepted]
  dsimp only
  rw [ran]
  rfl

/-! Rows of a regular plan. -/

variable {col row : Nat}

theorem lt_of_joins {order : Array Nat} (size_eq : order.size = pattern.size)
    (joins : pattern.Joins order col row) :
    col < pattern.size ∧ row < pattern.size := by
  obtain ⟨_, _, found, found', _⟩ := joins
  rw [← size_eq]
  exact ⟨(Array.getElem?_eq_some_iff.mp found).1,
    (Array.getElem?_eq_some_iff.mp found').1⟩

theorem lt_of_fill {order : Array Nat} (size_eq : order.size = pattern.size)
    (fill : Fill (pattern.Joins order) col row) : row < pattern.size := by
  induction fill with
  | entry below present => exact (lt_of_joins size_eq present).2
  | join below left right leftInside rightInside => exact rightInside

namespace Regular

theorem lt_of_fill (regular : plan.Regular pattern signs)
    (fill : Fill (pattern.Joins plan.order.order) col row) :
    row < pattern.size :=
  Plan.lt_of_fill regular.valid.order_size fill

theorem mem_rowColumns (regular : plan.Regular pattern signs) :
    col ∈ plan.rowColumns row ↔
      Fill (pattern.Joins plan.order.order) col row := by
  by_cases inside : row < pattern.size
  · exact (regular.isRow row inside).2 col
  · constructor
    · intro member
      rw [rowColumns, rowAt, List.getD, List.getElem?_eq_none
        (by rw [regular.rows_length]; omega)] at member
      cases member
    · intro fill
      exact absurd (regular.lt_of_fill fill) inside

theorem pairwise_rowColumns (regular : plan.Regular pattern signs) :
    (plan.rowColumns row).Pairwise (· < ·) := by
  by_cases inside : row < pattern.size
  · exact (regular.isRow row inside).1
  · rw [rowColumns, rowAt, List.getD, List.getElem?_eq_none
      (by rw [regular.rows_length]; omega)]
    exact .nil

theorem nodup_rowColumns (regular : plan.Regular pattern signs) :
    (plan.rowColumns row).Nodup :=
  regular.pairwise_rowColumns.imp Nat.ne_of_lt

theorem list_lower (regular : plan.Regular pattern signs)
    (inside : col < pattern.size) :
    ∃ rows, plan.lower.list col = .ok rows ∧ rows.Pairwise (· < ·) ∧
      ∀ row, row ∈ rows ↔ col ∈ plan.rowColumns row := by
  rw [← regular.rows_length] at inside
  refine ⟨rowsBefore plan.rowLists plan.rowLists.length col, ?_,
    pairwise_rowsBefore, fun row => ?_⟩
  · rw [regular.lower]
    exact Compressed.list_ofLists (getElem?_columnLists inside)
  · rw [mem_rowsBefore]
    refine ⟨And.right, fun member => ⟨?_, member⟩⟩
    rw [regular.rows_length]
    exact regular.lt_of_fill (regular.mem_rowColumns.mp member)

theorem size_eq (regular : plan.Regular pattern signs) :
    plan.size = pattern.size :=
  regular.relabels.size_eq

theorem size_eq_length (regular : plan.Regular pattern signs) :
    plan.size = plan.rowLists.length :=
  regular.size_eq.trans regular.rows_length.symm

theorem lt_of_mem (regular : plan.Regular pattern signs)
    (member : col ∈ plan.rowColumns row) : col < row ∧ row < plan.size := by
  have fill := regular.mem_rowColumns.mp member
  exact ⟨fill.lt, regular.size_eq ▸ regular.lt_of_fill fill⟩

/-- Two rows with an entry in one column meet: the later one has an entry in
the column of the earlier one. -/
theorem mem_of_mem (regular : plan.Regular pattern signs) {other : Nat}
    (member : col ∈ plan.rowColumns other) (member' : col ∈ plan.rowColumns row)
    (below : other < row) : other ∈ plan.rowColumns row :=
  regular.mem_rowColumns.mpr (.join below (regular.mem_rowColumns.mp member)
    (regular.mem_rowColumns.mp member'))

theorem list_rows (regular : plan.Regular pattern signs)
    (inside : row < plan.size) :
    plan.rows.list row = .ok (plan.rowColumns row) := by
  rw [regular.size_eq_length] at inside
  rw [regular.rows]
  exact Compressed.list_ofLists (getElem?_rows inside)

theorem list_slots (regular : plan.Regular pattern signs)
    (inside : row < plan.size) :
    Compressed.list ⟨plan.rows.start, plan.slots⟩ row =
      .ok (rowSlots plan.rowLists row) := by
  rw [regular.size_eq_length] at inside
  have start : plan.rows.start =
      (Compressed.ofLists (slotLists plan.rowLists)).start :=
    (congrArg Compressed.start regular.rows).trans start_slotLists.symm
  rw [start, regular.slots]
  exact Compressed.list_ofLists (getElem?_slotLists inside)

theorem steps_eq (regular : plan.Regular pattern signs)
    (inside : row < plan.size) :
    plan.steps row = .ok (stepsOf plan.rowLists row) := by
  rw [steps, regular.list_rows inside, Checked.ok_bind,
    regular.list_slots inside, Checked.ok_bind, rowColumns, rowSlots,
    List.zipWith_map_right, List.zipWith_self]
  rfl

theorem stepsAt_eq (regular : plan.Regular pattern signs)
    (inside : row < plan.size) :
    plan.stepsAt row = stepsOf plan.rowLists row := by
  rw [stepsAt, regular.steps_eq inside]
  rfl

theorem steps_eq_stepsAt (regular : plan.Regular pattern signs)
    (inside : row < plan.size) : plan.steps row = .ok (plan.stepsAt row) := by
  rw [regular.stepsAt_eq inside, regular.steps_eq inside]

theorem start_rows_size (regular : plan.Regular pattern signs) :
    plan.rows.start.size = pattern.size + 1 := by
  rw [regular.rows, Compressed.size_start, regular.rows_length]

theorem start_lower (regular : plan.Regular pattern signs)
    (inside : col ≤ plan.size) :
    plan.lower.start[col]? =
      some (Compressed.base (columnLists plan.rowLists) col) := by
  rw [regular.lower]
  apply Compressed.start_ofLists
  rwa [length_columnLists, regular.rows_length, ← regular.size_eq]

theorem index_lower (regular : plan.Regular pattern signs)
    (member : col ∈ plan.rowColumns row) :
    plan.lower.index[factorSlot plan.rowLists col row]? = some row := by
  obtain ⟨below, inside⟩ := regular.lt_of_mem member
  rw [regular.size_eq, ← regular.rows_length] at inside
  rw [regular.lower]
  exact index_factorSlot (Nat.lt_trans below inside) inside member

theorem factorSlot_lt (regular : plan.Regular pattern signs)
    (member : col ∈ plan.rowColumns row) :
    factorSlot plan.rowLists col row < plan.factorCount :=
  (Array.getElem?_eq_some_iff.mp (regular.index_lower member)).1

theorem exists_factorSlot (regular : plan.Regular pattern signs) {slot : Nat}
    (inside : slot < plan.factorCount) :
    ∃ col row, col ∈ plan.rowColumns row ∧
      slot = factorSlot plan.rowLists col row := by
  rw [factorCount, regular.lower] at inside
  obtain ⟨col, row, _, _, member, same⟩ :=
    Elimination.exists_factorSlot inside
  exact ⟨col, row, member, same⟩

theorem factorSlot_injective (regular : plan.Regular pattern signs)
    {col' row' : Nat} (member : col ∈ plan.rowColumns row)
    (member' : col' ∈ plan.rowColumns row')
    (same : factorSlot plan.rowLists col row =
      factorSlot plan.rowLists col' row') :
    col = col' ∧ row = row' := by
  obtain ⟨below, inside⟩ := regular.lt_of_mem member
  obtain ⟨below', inside'⟩ := regular.lt_of_mem member'
  rw [regular.size_eq, ← regular.rows_length] at inside inside'
  exact Elimination.factorSlot_injective (Nat.lt_trans below inside)
    (Nat.lt_trans below' inside') inside inside' member member' same

theorem step_lt (regular : plan.Regular pattern signs) {step : Step}
    (member : step ∈ stepsOf plan.rowLists row) :
    step.col < plan.size ∧ step.slot < plan.factorCount := by
  obtain ⟨col, listed, rfl⟩ := List.mem_map.mp member
  obtain ⟨below, inside⟩ := regular.lt_of_mem listed
  exact ⟨Nat.lt_trans below inside, regular.factorSlot_lt listed⟩

end Regular

end Plan

end QuasiDefinite
