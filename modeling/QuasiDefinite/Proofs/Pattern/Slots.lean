import Mathlib.Data.List.Sort
import QuasiDefinite.Pattern.Basic
import QuasiDefinite.Proofs.Compressed

/-!
Slots and entries. In a well-formed pattern the slot of an entry is its
position in the list of entries, seen from either triangle
(`slot?_eq_some_iff`).
-/

namespace QuasiDefinite.Pattern

open Compressed (base)

namespace IsColumn

variable {col row : Nat} {rows : List Nat}

theorem diagonal_mem (column : IsColumn col rows) : col ∈ rows :=
  List.mem_of_getLast? column.2

theorem nodup (column : IsColumn col rows) : rows.Nodup :=
  column.1.imp Nat.ne_of_lt

theorem eq_append (column : IsColumn col rows) :
    rows = rows.dropLast ++ [col] :=
  (List.dropLast_append_getLast? col column.2).symm

theorem lt_of_mem_dropLast (column : IsColumn col rows)
    (member : row ∈ rows.dropLast) : row < col := by
  have ascending := column.1
  rw [column.eq_append, List.pairwise_append] at ascending
  exact ascending.2.2 row member col (List.mem_singleton_self _)

theorem mem_iff (column : IsColumn col rows) :
    row ∈ rows ↔ row = col ∨ row ∈ rows.dropLast := by
  conv => lhs; rw [column.eq_append]
  rw [List.mem_append, List.mem_singleton, or_comm]

theorem le_of_mem (column : IsColumn col rows) (member : row ∈ rows) :
    row ≤ col := by
  rcases column.mem_iff.mp member with rfl | above
  · exact Nat.le_refl _
  · exact Nat.le_of_lt (column.lt_of_mem_dropLast above)

end IsColumn

theorem isColumn_of_mem {col : Nat} {rows : List Nat}
    (ascending : rows.Pairwise (· < ·)) (diagonal : col ∈ rows)
    (upper : ∀ row ∈ rows, row ≤ col) : IsColumn col rows := by
  refine ⟨ascending, ?_⟩
  obtain ⟨last, ends⟩ := Option.isSome_iff_exists.mp
    (List.getLast?_isSome.mpr (List.ne_nil_of_mem diagonal))
  have split := List.dropLast_append_getLast? last ends
  rw [← split, List.pairwise_append] at ascending
  rw [← split, List.mem_append, List.mem_singleton] at diagonal
  rcases diagonal with above | same
  · have below := ascending.2.2 col above last (List.mem_singleton_self _)
    have le := upper last (List.mem_of_getLast? ends)
    exact absurd below (Nat.not_lt.mpr le)
  · rw [ends, same]

/-! Patterns given by their columns. -/

def AreColumns (columns : List (List Nat)) : Prop :=
  ∀ (col : Nat) (rows : List Nat), columns[col]? = some rows →
    IsColumn col rows

variable {columns : List (List Nat)} {col row slot : Nat} {rows : List Nat}

theorem size_ofColumns : (ofColumns columns).size = columns.length :=
  rfl

theorem slotCount_ofColumns :
    (ofColumns columns).slotCount = base columns columns.length :=
  Compressed.size_index

theorem first_ofColumns (inside : col ≤ columns.length) :
    (ofColumns columns).first col = base columns col := by
  rw [first]
  exact getD_of_getElem? (Compressed.start_ofLists inside)

theorem column_ofColumns (found : columns[col]? = some rows) :
    (ofColumns columns).column col = rows := by
  obtain ⟨inside, rfl⟩ := List.getElem?_eq_some_iff.mp found
  rw [column, first_ofColumns (Nat.le_of_lt inside), first_ofColumns inside,
    Compressed.base_succ found, Array.toList_extract,
    List.extract_eq_take_drop, Nat.add_sub_cancel_left]
  rw [show (ofColumns columns).upper.index.toList = columns.flatten from rfl,
    base, drop_flatten, List.drop_eq_getElem_cons inside, List.flatten_cons,
    List.take_left]

def entriesBefore (columns : List (List Nat)) (count : Nat) :
    List (Nat × Nat) :=
  (List.range count).flatMap fun col =>
    (columns.getD col []).map fun row => (row, col)

theorem entriesBefore_succ (found : columns[col]? = some rows) :
    entriesBefore columns (col + 1) =
      entriesBefore columns col ++ rows.map fun row => (row, col) := by
  rw [entriesBefore, List.range_succ, List.flatMap_append]
  simp [entriesBefore, List.getD, found]

theorem entries_ofColumns :
    (ofColumns columns).entries = entriesBefore columns columns.length := by
  rw [entries, entriesBefore, size_ofColumns]
  have same : ∀ col ∈ List.range columns.length,
      (ofColumns columns).column col = columns.getD col [] := by
    intro col member
    have found := List.getElem?_eq_getElem (List.mem_range.mp member)
    rw [column_ofColumns found, List.getD, found]
    rfl
  exact List.flatMap_congr fun col member => by rw [same col member]

theorem length_entriesBefore {count : Nat} (inside : count ≤ columns.length) :
    (entriesBefore columns count).length = base columns count := by
  induction count with
  | zero => rfl
  | succ count ih =>
      have found := List.getElem?_eq_getElem inside
      rw [entriesBefore_succ found, List.length_append, List.length_map,
        ih (Nat.le_of_succ_le inside), Compressed.base_succ found]

theorem entriesBefore_initial {count more : Nat} (le : count ≤ more)
    (inside : more ≤ columns.length) :
    entriesBefore columns count <+: entriesBefore columns more := by
  induction le with
  | refl => exact List.prefix_rfl
  | @step more _ ih =>
      rw [entriesBefore_succ (List.getElem?_eq_getElem inside)]
      exact (ih (Nat.le_of_succ_le inside)).trans (List.prefix_append ..)

theorem entries_getElem? (found : columns[col]? = some rows) {place : Nat}
    (here : rows[place]? = some row) :
    (ofColumns columns).entries[base columns col + place]? =
      some (row, col) := by
  obtain ⟨inside, _⟩ := List.getElem?_eq_some_iff.mp found
  obtain ⟨rest, split⟩ := @entriesBefore_initial columns (col + 1) _ inside
    (Nat.le_refl _)
  have start := length_entriesBefore (Nat.le_of_lt inside)
  have small := (List.getElem?_eq_some_iff.mp here).1
  rw [entries_ofColumns, ← split, entriesBefore_succ found,
    List.append_assoc, List.getElem?_append_right (by omega), start,
    Nat.add_sub_cancel_left, List.getElem?_append_left (by simpa),
    List.getElem?_map, here]
  rfl

theorem length_entries :
    (ofColumns columns).entries.length = (ofColumns columns).slotCount := by
  rw [entries_ofColumns, length_entriesBefore (Nat.le_refl _),
    slotCount_ofColumns]

theorem exists_place_of_entry
    (found : (ofColumns columns).entries[slot]? = some (row, col)) :
    ∃ rows place, columns[col]? = some rows ∧ rows[place]? = some row ∧
      slot = base columns col + place := by
  have inside := (List.getElem?_eq_some_iff.mp found).1
  rw [length_entries, slotCount_ofColumns] at inside
  obtain ⟨col', rows, place, listed, small, rfl⟩ :=
    Compressed.exists_place inside
  have here := List.getElem?_eq_getElem small
  rw [entries_getElem? listed here, Option.some.injEq, Prod.mk.injEq] at found
  obtain ⟨rfl, rfl⟩ := found
  exact ⟨rows, place, listed, here, rfl⟩

theorem mem_entries :
    (row, col) ∈ (ofColumns columns).entries ↔
      ∃ rows, columns[col]? = some rows ∧ row ∈ rows := by
  constructor
  · intro member
    obtain ⟨slot, found⟩ := List.mem_iff_getElem?.mp member
    obtain ⟨rows, place, listed, here, _⟩ := exists_place_of_entry found
    exact ⟨rows, listed, List.mem_of_getElem? here⟩
  · rintro ⟨rows, listed, member⟩
    obtain ⟨place, here⟩ := List.mem_iff_getElem?.mp member
    exact List.mem_of_getElem? (entries_getElem? listed here)

theorem slot_injective (columns' : AreColumns columns) {slot' : Nat}
    {entry : Nat × Nat}
    (found : (ofColumns columns).entries[slot]? = some entry)
    (found' : (ofColumns columns).entries[slot']? = some entry) :
    slot = slot' := by
  obtain ⟨row, col⟩ := entry
  obtain ⟨rows, place, listed, here, rfl⟩ := exists_place_of_entry found
  obtain ⟨rows', place', listed', here', rfl⟩ := exists_place_of_entry found'
  obtain rfl : rows = rows' := Option.some.inj (listed.symm.trans listed')
  have nodup := (columns' col rows listed).nodup
  have inside := (List.getElem?_eq_some_iff.mp here).1
  rw [(List.getElem?_inj inside nodup).mp (here.trans here'.symm)]

theorem nodup_entries (columns' : AreColumns columns) :
    (ofColumns columns).entries.Nodup := by
  rw [List.nodup_iff_getElem?_ne_getElem?]
  intro slot slot' below inside same
  have found := List.getElem?_eq_getElem inside
  have := slot_injective columns' (same.trans found) found
  omega

theorem entry_le (columns' : AreColumns columns)
    (member : (row, col) ∈ (ofColumns columns).entries) :
    row ≤ col ∧ col < columns.length := by
  obtain ⟨rows, listed, member⟩ := mem_entries.mp member
  exact ⟨(columns' col rows listed).le_of_mem member,
    (List.getElem?_eq_some_iff.mp listed).1⟩

theorem idxOf?_eq_some_iff {place : Nat} (nodup : rows.Nodup) :
    rows.idxOf? row = some place ↔ rows[place]? = some row := by
  rw [List.idxOf?_eq_some_iff]
  constructor
  · rintro ⟨inside, here, _⟩
    exact List.getElem?_eq_some_iff.mpr ⟨inside, here⟩
  · intro found
    obtain ⟨inside, here⟩ := List.getElem?_eq_some_iff.mp found
    refine ⟨inside, here, fun other before same => ?_⟩
    have := (List.getElem_inj nodup).mp (same.trans here.symm)
    omega

theorem slot?_ofColumns (columns' : AreColumns columns) {i k : Nat} :
    (ofColumns columns).slot? i k = some slot ↔
      (ofColumns columns).entries[slot]? = some (min i k, max i k) := by
  rw [slot?]
  constructor
  · intro found
    split at found
    · next inside =>
      have listed := List.getElem?_eq_getElem inside
      rw [column_ofColumns listed, Option.map_eq_some_iff] at found
      obtain ⟨place, here, rfl⟩ := found
      rw [idxOf?_eq_some_iff (columns' _ _ listed).nodup] at here
      rw [first_ofColumns (Nat.le_of_lt inside)]
      exact entries_getElem? listed here
    · cases found
  · intro found
    obtain ⟨rows, place, listed, here, rfl⟩ := exists_place_of_entry found
    obtain ⟨inside, _⟩ := List.getElem?_eq_some_iff.mp listed
    rw [← idxOf?_eq_some_iff (columns' _ rows listed).nodup] at here
    rw [size_ofColumns, if_pos inside, column_ofColumns listed, here,
      first_ofColumns (Nat.le_of_lt inside)]
    rfl

/-! The same for well-formed patterns. -/

namespace WellFormed

variable {pattern : Pattern}

theorem length_entries (wellFormed : pattern.WellFormed) :
    pattern.entries.length = pattern.slotCount := by
  obtain ⟨columns, rfl, _⟩ := wellFormed
  exact Pattern.length_entries

theorem entry_le (wellFormed : pattern.WellFormed)
    (member : (row, col) ∈ pattern.entries) :
    row ≤ col ∧ col < pattern.size := by
  obtain ⟨columns, rfl, columns'⟩ := wellFormed
  exact Pattern.entry_le columns' member

theorem nodup_entries (wellFormed : pattern.WellFormed) :
    pattern.entries.Nodup := by
  obtain ⟨columns, rfl, columns'⟩ := wellFormed
  exact Pattern.nodup_entries columns'

theorem diagonal_mem (wellFormed : pattern.WellFormed)
    (inside : col < pattern.size) : (col, col) ∈ pattern.entries := by
  obtain ⟨columns, rfl, columns'⟩ := wellFormed
  have listed := List.getElem?_eq_getElem inside
  exact mem_entries.mpr ⟨_, listed, (columns' col _ listed).diagonal_mem⟩

theorem exists_column (wellFormed : pattern.WellFormed)
    (inside : col < pattern.size) :
    ∃ rows, pattern.upper.list col = .ok rows ∧ IsColumn col rows ∧
      ∀ {row}, row ∈ rows ↔ (row, col) ∈ pattern.entries := by
  obtain ⟨columns, rfl, columns'⟩ := wellFormed
  have listed := List.getElem?_eq_getElem inside
  refine ⟨_, Compressed.list_ofLists listed, columns' col _ listed, ?_⟩
  intro row
  rw [Pattern.mem_entries]
  simp [listed]

theorem index_eq (wellFormed : pattern.WellFormed)
    (found : pattern.entries[slot]? = some (row, col)) :
    pattern.upper.index[slot]? = some row := by
  obtain ⟨columns, rfl, _⟩ := wellFormed
  obtain ⟨rows, place, listed, here, rfl⟩ := exists_place_of_entry found
  have inside := (List.getElem?_eq_some_iff.mp here).1
  exact (Compressed.index_ofLists listed inside).trans here

theorem exists_slots (wellFormed : pattern.WellFormed)
    (inside : col < pattern.size) :
    ∃ first last, pattern.upper.start[col]? = some first ∧
      pattern.upper.start[col + 1]? = some (last + 1) ∧
      pattern.entries[last]? = some (col, col) ∧
      ∀ slot, first ≤ slot ∧ slot < last ↔
        ∃ row, row < col ∧ pattern.entries[slot]? = some (row, col) := by
  obtain ⟨columns, rfl, columns'⟩ := wellFormed
  have listed := List.getElem?_eq_getElem inside
  have column := columns' col _ listed
  have length : 0 < columns[col].length :=
    List.length_pos_of_mem column.diagonal_mem
  have ends := column.2
  rw [List.getLast?_eq_getElem?] at ends
  refine ⟨_, base columns col + (columns[col].length - 1),
    Compressed.start_ofLists (Nat.le_of_lt inside), ?_,
    entries_getElem? listed ends, fun slot => ⟨?_, ?_⟩⟩
  · rw [show (ofColumns columns).upper = .ofLists columns from rfl,
      Compressed.start_ofLists inside, Compressed.base_succ listed]
    congr 1
    omega
  · rintro ⟨le, below⟩
    obtain ⟨place, rfl⟩ := Nat.exists_eq_add_of_le le
    have small : place < columns[col].length - 1 := by omega
    have here : columns[col][place]? = some columns[col][place] :=
      List.getElem?_eq_getElem (by omega)
    refine ⟨columns[col][place], column.lt_of_mem_dropLast ?_,
      entries_getElem? listed here⟩
    rw [← List.getElem_dropLast (by simpa using small)]
    exact List.getElem_mem _
  · rintro ⟨row, below, found⟩
    obtain ⟨rows, place, listed', here, rfl⟩ := exists_place_of_entry found
    obtain rfl : columns[col] = rows :=
      Option.some.inj (listed.symm.trans listed')
    have small := (List.getElem?_eq_some_iff.mp here).1
    have notLast : place ≠ columns[col].length - 1 := by
      rintro rfl
      rw [ends, Option.some.injEq] at here
      omega
    omega

theorem size_start (wellFormed : pattern.WellFormed) :
    pattern.upper.start.size = pattern.size + 1 := by
  obtain ⟨columns, rfl, _⟩ := wellFormed
  exact Compressed.size_start

theorem exists_positions (wellFormed : pattern.WellFormed)
    (inside : col < pattern.size) :
    ∃ slots, pattern.upper.positions col = .ok slots ∧ slots.Nodup ∧
      ∀ slot, slot ∈ slots ↔
        ∃ row, pattern.entries[slot]? = some (row, col) := by
  obtain ⟨columns, rfl, columns'⟩ := wellFormed
  have listed := List.getElem?_eq_getElem inside
  refine ⟨_, Compressed.positions_ofLists inside, List.nodup_range', ?_⟩
  intro slot
  rw [mem_span, Compressed.base_succ listed]
  constructor
  · intro range
    obtain ⟨place, rfl⟩ := Nat.exists_eq_add_of_le range.1
    have here := List.getElem?_eq_getElem (Nat.lt_of_add_lt_add_left range.2)
    exact ⟨_, entries_getElem? listed here⟩
  · intro entry
    obtain ⟨row, found⟩ := entry
    obtain ⟨rows, place, listed', here, rfl⟩ := exists_place_of_entry found
    obtain rfl : columns[col] = rows :=
      Option.some.inj (listed.symm.trans listed')
    have small := (List.getElem?_eq_some_iff.mp here).1
    exact ⟨Nat.le_add_right .., Nat.add_lt_add_left small _⟩

theorem slot?_eq_some_iff (wellFormed : pattern.WellFormed) {i k : Nat} :
    pattern.slot? i k = some slot ↔
      pattern.entries[slot]? = some (min i k, max i k) := by
  obtain ⟨columns, rfl, columns'⟩ := wellFormed
  exact slot?_ofColumns columns'

/-- A well-formed pattern is known by its entries. -/
theorem ext {pattern' : Pattern} (wellFormed : pattern.WellFormed)
    (wellFormed' : pattern'.WellFormed) (size_eq : pattern.size = pattern'.size)
    (same : ∀ row col, (row, col) ∈ pattern.entries ↔
      (row, col) ∈ pattern'.entries) : pattern = pattern' := by
  obtain ⟨columns, rfl, areColumns⟩ := wellFormed
  obtain ⟨columns', rfl, areColumns'⟩ := wellFormed'
  congr 1
  refine List.ext_getElem size_eq fun col inside inside' => ?_
  have listed := List.getElem?_eq_getElem inside
  have listed' := List.getElem?_eq_getElem inside'
  refine List.Pairwise.eq_of_mem_iff (areColumns col _ listed).1
    (areColumns' col _ listed').1 fun row => ?_
  have here := same row col
  rw [Pattern.mem_entries, Pattern.mem_entries, listed, listed'] at here
  simpa using here

end WellFormed

end QuasiDefinite.Pattern
