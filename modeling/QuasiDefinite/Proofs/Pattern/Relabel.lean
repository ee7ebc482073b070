import QuasiDefinite.Pattern.Relabel
import QuasiDefinite.Proofs.Order.Permutation
import QuasiDefinite.Proofs.Pattern.Slots

namespace QuasiDefinite.Pattern

open Compressed (base)

/-! Sorted entries, column by column. -/

def Before (left right : Moved) : Prop :=
  left.col < right.col ∨ left.col = right.col ∧ left.row < right.row

variable {sorted : List Moved} {size : Nat}

def columnsOf (sorted : List Moved) (size : Nat) : List (List Nat) :=
  (List.range size).map fun col =>
    (sorted.filter fun entry => entry.col == col).map Moved.row

@[simp] theorem length_columnsOf : (columnsOf sorted size).length = size := by
  simp [columnsOf]

theorem getElem?_columnsOf {col : Nat} (inside : col < size) :
    (columnsOf sorted size)[col]? = some
      ((sorted.filter fun entry => entry.col == col).map Moved.row) := by
  simp [columnsOf, inside]

theorem filter_append_filter (ascending : sorted.Pairwise Before)
    (small : ∀ entry ∈ sorted, entry.col < size + 1) :
    sorted.filter (fun entry => decide (entry.col < size)) ++
      sorted.filter (fun entry => entry.col == size) = sorted := by
  induction sorted with
  | nil => rfl
  | cons entry rest ih =>
      obtain ⟨first, ascending⟩ := List.pairwise_cons.mp ascending
      have smallRest : ∀ other ∈ rest, other.col < size + 1 :=
        fun other member => small other (List.mem_cons_of_mem _ member)
      have le := small entry (List.mem_cons_self ..)
      by_cases below : entry.col < size
      · have other : (entry.col == size) = false := by simp; omega
        rw [List.filter_cons_of_pos (by simpa), List.filter_cons, other]
        simpa using ih ascending smallRest
      · have last : entry.col = size := by omega
        have none : rest.filter (fun other => decide (other.col < size)) =
            [] := by
          rw [List.filter_eq_nil_iff]
          intro other member
          have := first other member
          simp only [Before, last] at this
          simp
          omega
        have ih := ih ascending smallRest
        rw [none, List.nil_append] at ih
        simp [last, none, ih]

theorem flatMap_filter (ascending : sorted.Pairwise Before)
    (small : ∀ entry ∈ sorted, entry.col < size) :
    (List.range size).flatMap
      (fun col => sorted.filter fun entry => entry.col == col) = sorted := by
  induction size generalizing sorted with
  | zero =>
      cases sorted with
      | nil => rfl
      | cons entry rest =>
          exact absurd (small entry (List.mem_cons_self ..)) (Nat.not_lt_zero _)
  | succ size ih =>
      let first := sorted.filter fun entry => decide (entry.col < size)
      have firstSmall : ∀ entry ∈ first, entry.col < size := by
        intro entry member
        simpa using (List.mem_filter.mp member).2
      have same : ∀ col ∈ List.range size,
          (sorted.filter fun entry => entry.col == col) =
            first.filter fun entry => entry.col == col := by
        intro col member
        have inside := List.mem_range.mp member
        rw [List.filter_filter]
        refine List.filter_congr fun entry _ => ?_
        by_cases here : entry.col = col <;> simp [here, inside]
      rw [List.range_succ, List.flatMap_append, List.flatMap_congr same,
        ih (ascending.filter _) firstSmall, List.flatMap_singleton]
      exact filter_append_filter ascending small

theorem flatten_columnsOf (ascending : sorted.Pairwise Before)
    (small : ∀ entry ∈ sorted, entry.col < size) :
    (columnsOf sorted size).flatten = sorted.map Moved.row := by
  conv => rhs; rw [← flatMap_filter ascending small]
  rw [columnsOf, List.map_flatMap, List.flatMap_def]

theorem entries_columnsOf (ascending : sorted.Pairwise Before)
    (small : ∀ entry ∈ sorted, entry.col < size) :
    (ofColumns (columnsOf sorted size)).entries =
      sorted.map fun entry => (entry.row, entry.col) := by
  conv => rhs; rw [← flatMap_filter ascending small]
  rw [entries_ofColumns, entriesBefore, length_columnsOf, List.map_flatMap]
  refine List.flatMap_congr fun col member => ?_
  rw [List.getD, getElem?_columnsOf (List.mem_range.mp member),
    Option.getD_some, List.map_map]
  refine List.map_congr_left fun entry member => ?_
  have here := (List.mem_filter.mp member).2
  simp only [beq_iff_eq] at here
  simp [here]

theorem areColumns_columnsOf (ascending : sorted.Pairwise Before)
    (upper : ∀ entry ∈ sorted, entry.row ≤ entry.col)
    (diagonal : ∀ col, col < size →
      ∃ entry ∈ sorted, entry.col = col ∧ entry.row = col) :
    AreColumns (columnsOf sorted size) := by
  intro col rows listed
  have inside : col < size := by
    simpa using (List.getElem?_eq_some_iff.mp listed).1
  rw [getElem?_columnsOf inside, Option.some.injEq] at listed
  subst listed
  refine isColumn_of_mem ?_ ?_ ?_
  · rw [List.pairwise_map, List.pairwise_filter]
    refine ascending.imp fun before here here' => ?_
    simp only [Before, beq_iff_eq] at before here here'
    omega
  · obtain ⟨entry, member, inCol, inRow⟩ := diagonal col inside
    exact List.mem_map.mpr
      ⟨entry, List.mem_filter.mpr ⟨member, by simpa using inCol⟩, inRow⟩
  · intro row listed
    obtain ⟨entry, kept, rfl⟩ := List.mem_map.mp listed
    obtain ⟨member, here⟩ := List.mem_filter.mp kept
    simp only [beq_iff_eq] at here
    exact here ▸ upper entry member

/-! Counting the entries of every column. -/

theorem starts_columnsOf (small : ∀ entry ∈ sorted, entry.col < size) :
    Compressed.starts size (sorted.map Moved.col).toArray =
      .ok (Compressed.ofLists (columnsOf sorted size)).start := by
  have runs := @Compressed.starts_runs (columnsOf sorted size)
    (sorted.map Moved.col).toArray
  rw [length_columnsOf] at runs
  refine runs ?_ ?_
  · intro col member
    obtain ⟨entry, listed, rfl⟩ := List.mem_map.mp member
    exact small entry listed
  · intro col list found
    have inside : col < size := by
      simpa using (List.getElem?_eq_some_iff.mp found).1
    rw [getElem?_columnsOf inside, Option.some.injEq] at found
    rw [← found, List.toList_toArray, List.count_eq_countP, List.countP_map,
      List.length_map, ← List.countP_eq_length_filter]
    rfl

/-! Where the slots go. -/

theorem slots_runs (nodup : (sorted.map Moved.slot).Nodup)
    (small : ∀ entry ∈ sorted, entry.slot < sorted.length) :
    ∃ slots, sorted.zipIdx.foldlM
        (fun slots (entry, rank) => Checked.set slots entry.slot rank)
        (Array.replicate sorted.length 0) = .ok slots ∧
      slots.size = sorted.length ∧ ∀ (rank : Nat) (entry : Moved),
        sorted[rank]? = some entry → slots[entry.slot]? = some rank := by
  obtain ⟨slots, ran, size_eq, placed⟩ :=
    @Checked.foldlM_runs _ _ _
      (fun slots (entry, rank) => Checked.set slots entry.slot rank)
      sorted.zipIdx
      (fun done slots => slots.size = sorted.length ∧
        ∀ entry rank, (entry, rank) ∈ done →
          slots[entry.slot]? = some rank)
      (Array.replicate sorted.length 0) ⟨by simp, by simp⟩
      (by
        rintro done ⟨entry, rank⟩ rest slots split ⟨size_eq, placed⟩
        have listed : entry ∈ sorted := by
          have member : (entry, rank) ∈ sorted.zipIdx := by simp [split]
          exact List.mem_of_getElem? (List.mk_mem_zipIdx_iff_getElem?.mp member)
        have inside : entry.slot < slots.size := by
          rw [size_eq]
          exact small entry listed
        refine ⟨_, Checked.set_eq_ok_iff.mpr ⟨inside, rfl⟩,
          by simpa using size_eq, ?_⟩
        intro other rank' member
        rcases List.mem_append.mp member with old | last
        · have differs : entry.slot ≠ other.slot := by
            have all : sorted.map Moved.slot =
                sorted.zipIdx.map fun pair => pair.1.slot := by
              conv => lhs; rw [← List.zipIdx_map_fst 0 sorted, List.map_map]
              rfl
            rw [all, split, List.map_append, List.nodup_append] at nodup
            exact (nodup.2.2 other.slot
              (List.mem_map.mpr ⟨_, old, rfl⟩) entry.slot (by simp)).symm
          rw [Array.getElem?_setIfInBounds_ne differs]
          exact placed other rank' old
        · simp only [List.mem_singleton, Prod.mk.injEq] at last
          obtain ⟨rfl, rfl⟩ := last
          exact Array.getElem?_setIfInBounds_self_of_lt inside)
  refine ⟨slots, ran, size_eq, ?_⟩
  intro rank entry found
  exact placed entry rank (List.mk_mem_zipIdx_iff_getElem?.mpr found)

variable {pattern : Pattern} {permutation : Permutation}

def movedEntry (place : Array Nat) (entry : (Nat × Nat) × Nat) : Moved :=
  ⟨max (place.getD entry.1.1 0) (place.getD entry.1.2 0),
    min (place.getD entry.1.1 0) (place.getD entry.1.2 0), entry.2⟩

theorem precedes_iff {left right : Moved} :
    left.precedes right = true ↔ Before left right ∨
      left.col = right.col ∧ left.row = right.row ∧
        left.slot ≤ right.slot := by
  simp only [Moved.precedes, Before, Bool.or_eq_true, Bool.and_eq_true,
    decide_eq_true_eq, beq_iff_eq]
  omega

theorem pairwise_mergeSort {moved : List Moved}
    (nodup : (moved.map fun entry => (entry.col, entry.row)).Nodup) :
    (moved.mergeSort Moved.precedes).Pairwise Before := by
  have sorted := @List.pairwise_mergeSort Moved Moved.precedes
    (by
      intro first second third
      simp only [precedes_iff, Before]
      omega)
    (by
      intro first second
      simp only [Bool.or_eq_true, precedes_iff, Before]
      omega)
    moved
  have nodup' := ((List.mergeSort_perm moved Moved.precedes).map
    fun entry => (entry.col, entry.row)).nodup_iff.mpr nodup
  refine sorted.imp₂ ?_ (List.pairwise_map.mp nodup')
  intro left right before differs
  rcases precedes_iff.mp before with before | ⟨sameCol, sameRow, _⟩
  · exact before
  · exact absurd (by rw [sameCol, sameRow]) differs

structure Relabels (pattern : Pattern) (permutation : Permutation)
    (result : Relabelled) : Prop where
  size_eq : result.pattern.size = pattern.size
  wellFormed : result.pattern.WellFormed
  slotCount_eq : result.pattern.slotCount = pattern.slotCount
  slot_size : result.slot.size = pattern.slotCount
  slot_injective : ∀ slot slot' new : Nat,
    result.slot[slot]? = some new → result.slot[slot']? = some new →
      slot = slot'
  slot_onto : ∀ new : Nat, new < pattern.slotCount →
    ∃ slot : Nat, result.slot[slot]? = some new
  slot_entry : ∀ slot row col : Nat,
    pattern.entries[slot]? = some (row, col) → ∃ new row' col' : Nat,
      result.slot[slot]? = some new ∧
      permutation.place[row]? = some row' ∧
      permutation.place[col]? = some col' ∧
      result.pattern.entries[new]? = some (min row' col', max row' col')

theorem place_injective {size i k : Nat} (valid : permutation.Valid size)
    (inside : i < size) (inside' : k < size)
    (same : permutation.place.getD i 0 = permutation.place.getD k 0) :
    i = k := by
  obtain ⟨place, _, found, order⟩ := valid.exists_place inside
  obtain ⟨place', _, found', order'⟩ := valid.exists_place inside'
  rw [getD_of_getElem? found, getD_of_getElem? found'] at same
  rw [same, order'] at order
  exact (Option.some.inj order).symm

theorem place_lt {size i : Nat} (valid : permutation.Valid size)
    (inside : i < size) : permutation.place.getD i 0 < size := by
  obtain ⟨place, small, found, _⟩ := valid.exists_place inside
  rwa [getD_of_getElem? found]

section Columns

variable {columns : List (List Nat)}

theorem moveEntry_runs (columns' : AreColumns columns)
    (valid : permutation.Valid columns.length) :
    (ofColumns columns).entries.zipIdx.mapM (moveEntry permutation.place) =
      .ok ((ofColumns columns).entries.zipIdx.map
        (movedEntry permutation.place)) := by
  apply Checked.mapM_runs
  rintro ⟨⟨row, col⟩, slot⟩ member
  have found := List.mk_mem_zipIdx_iff_getElem?.mp member
  obtain ⟨le, inside⟩ := entry_le columns' (List.mem_of_getElem? found)
  obtain ⟨row', _, foundRow, _⟩ :=
    valid.exists_place (Nat.lt_of_le_of_lt le inside)
  obtain ⟨col', _, foundCol, _⟩ := valid.exists_place inside
  rw [moveEntry, Checked.get_eq_ok_iff.mpr foundRow, Checked.ok_bind,
    Checked.get_eq_ok_iff.mpr foundCol]
  simp [movedEntry, Array.getD_eq_getD_getElem?, foundRow, foundCol]

/-- Two entries that come to the same column and row are the same: both lie in
the upper triangle. -/
theorem nodup_moved (columns' : AreColumns columns)
    (valid : permutation.Valid columns.length) :
    (((ofColumns columns).entries.zipIdx.map
      (movedEntry permutation.place)).map
        fun entry => (entry.col, entry.row)).Nodup := by
  let place := fun i => permutation.place.getD i 0
  have keys : ((ofColumns columns).entries.zipIdx.map
      (movedEntry permutation.place)).map
        (fun entry => (entry.col, entry.row)) =
      (ofColumns columns).entries.map fun entry =>
        (max (place entry.1) (place entry.2),
          min (place entry.1) (place entry.2)) := by
    conv =>
      rhs
      rw [← List.zipIdx_map_fst 0 (ofColumns columns).entries, List.map_map]
    rw [List.map_map]
    rfl
  rw [keys]
  refine List.Nodup.map_on ?_ (nodup_entries columns')
  rintro ⟨row, col⟩ member ⟨row', col'⟩ member' same
  obtain ⟨le, inside⟩ := entry_le columns' member
  obtain ⟨le', inside'⟩ := entry_le columns' member'
  simp only [Prod.mk.injEq] at same
  have cases' : place row = place row' ∧ place col = place col' ∨
      place row = place col' ∧ place col = place row' := by omega
  rcases cases' with ⟨sameRow, sameCol⟩ | ⟨crossed, crossed'⟩
  · rw [place_injective valid (by omega) (by omega) sameRow,
      place_injective valid inside inside' sameCol]
  · have := place_injective valid (by omega) inside' crossed
    have := place_injective valid inside (by omega) crossed'
    ext <;> dsimp only <;> omega

def sortedEntries (columns : List (List Nat)) (place : Array Nat) :
    List Moved :=
  ((ofColumns columns).entries.zipIdx.map (movedEntry place)).mergeSort
    Moved.precedes

theorem mem_sortedEntries {place : Array Nat} {entry : Moved} :
    entry ∈ sortedEntries columns place ↔ ∃ slot row col,
      (ofColumns columns).entries[slot]? = some (row, col) ∧
        movedEntry place ((row, col), slot) = entry := by
  rw [sortedEntries, List.mem_mergeSort, List.mem_map]
  constructor
  · rintro ⟨⟨⟨row, col⟩, slot⟩, member, rfl⟩
    exact ⟨slot, row, col, List.mk_mem_zipIdx_iff_getElem?.mp member, rfl⟩
  · rintro ⟨slot, row, col, found, rfl⟩
    exact ⟨_, List.mk_mem_zipIdx_iff_getElem?.mpr found, rfl⟩

theorem length_sortedEntries {place : Array Nat} :
    (sortedEntries columns place).length = (ofColumns columns).slotCount := by
  rw [sortedEntries, List.length_mergeSort, List.length_map,
    List.length_zipIdx, length_entries]

theorem pairwise_sortedEntries (columns' : AreColumns columns)
    (valid : permutation.Valid columns.length) :
    (sortedEntries columns permutation.place).Pairwise Before :=
  pairwise_mergeSort (nodup_moved columns' valid)

theorem col_lt_of_mem (columns' : AreColumns columns)
    (valid : permutation.Valid columns.length) :
    ∀ entry ∈ sortedEntries columns permutation.place,
      entry.col < columns.length := by
  intro entry member
  obtain ⟨slot, row, col, found, rfl⟩ := mem_sortedEntries.mp member
  obtain ⟨le, inside⟩ := entry_le columns' (List.mem_of_getElem? found)
  exact Nat.max_lt.mpr ⟨place_lt valid (Nat.lt_of_le_of_lt le inside),
    place_lt valid inside⟩

theorem slot_lt_of_mem {place : Array Nat} :
    ∀ entry ∈ sortedEntries columns place,
      entry.slot < (sortedEntries columns place).length := by
  intro entry member
  obtain ⟨slot, row, col, found, rfl⟩ := mem_sortedEntries.mp member
  rw [length_sortedEntries, ← length_entries]
  exact (List.getElem?_eq_some_iff.mp found).1

theorem nodup_slots {place : Array Nat} :
    ((sortedEntries columns place).map Moved.slot).Nodup := by
  rw [sortedEntries, ((List.mergeSort_perm ..).map Moved.slot).nodup_iff,
    List.map_map]
  have slots : (ofColumns columns).entries.zipIdx.map
      (Moved.slot ∘ movedEntry place) =
      (ofColumns columns).entries.zipIdx.map Prod.snd := rfl
  rw [slots, List.zipIdx_map_snd]
  exact List.nodup_range'

/-- The relabelled columns are columns: the index that comes to a place brings
its diagonal entry there. -/
theorem areColumns_sortedEntries (columns' : AreColumns columns)
    (valid : permutation.Valid columns.length) :
    AreColumns (columnsOf (sortedEntries columns permutation.place)
      columns.length) := by
  refine areColumns_columnsOf (pairwise_sortedEntries columns' valid) ?_ ?_
  · intro entry member
    obtain ⟨slot, row, col, found, rfl⟩ := mem_sortedEntries.mp member
    simp only [movedEntry]
    omega
  · intro place inside
    obtain ⟨index, insideIndex, _, found⟩ := valid.exists_order inside
    have listed := List.getElem?_eq_getElem insideIndex
    have diagonal := mem_entries.mpr
      ⟨_, listed, (columns' _ _ listed).diagonal_mem⟩
    obtain ⟨slot, here⟩ := List.mem_iff_getElem?.mp diagonal
    refine ⟨_, mem_sortedEntries.mpr ⟨slot, _, _, here, rfl⟩, ?_⟩
    simp [movedEntry, Array.getD_eq_getD_getElem?, found]

theorem relabel_ofColumns (columns' : AreColumns columns)
    (valid : permutation.Valid columns.length) :
    ∃ slots, (ofColumns columns).relabel permutation.place = .ok
        ⟨ofColumns (columnsOf (sortedEntries columns permutation.place)
          columns.length), slots⟩ ∧
      slots.size = (ofColumns columns).slotCount ∧
      ∀ (rank : Nat) (entry : Moved),
        (sortedEntries columns permutation.place)[rank]? = some entry →
          slots[entry.slot]? = some rank := by
  have started := starts_columnsOf (col_lt_of_mem columns' valid)
  obtain ⟨slots, slotsRan, slots_size, ranked⟩ :=
    slots_runs nodup_slots (@slot_lt_of_mem columns permutation.place)
  have index := flatten_columnsOf (pairwise_sortedEntries columns' valid)
    (col_lt_of_mem columns' valid)
  refine ⟨slots, ?_, slots_size.trans length_sortedEntries, ranked⟩
  rw [relabel, moveEntry_runs columns' valid, Checked.ok_bind]
  dsimp only
  rw [← sortedEntries, size_ofColumns, started, Checked.ok_bind, slotsRan,
    Checked.ok_bind, Checked.pure_eq_ok, ← index]
  simp [ofColumns, Compressed.ofLists]

end Columns

theorem relabel_runs (wellFormed : pattern.WellFormed)
    (valid : permutation.Valid pattern.size) :
    ∃ result, pattern.relabel permutation.place = .ok result ∧
      Relabels pattern permutation result := by
  obtain ⟨columns, rfl, columns'⟩ := wellFormed
  obtain ⟨slots, ran, slots_size, ranked⟩ :=
    relabel_ofColumns columns' valid
  have entries := entries_columnsOf (pairwise_sortedEntries columns' valid)
    (col_lt_of_mem columns' valid)
  have origin : ∀ slot new : Nat, slots[slot]? = some new → ∃ entry,
      (sortedEntries columns permutation.place)[new]? = some entry ∧
        entry.slot = slot := by
    intro slot new found
    have inside := (Array.getElem?_eq_some_iff.mp found).1
    rw [slots_size, ← length_entries] at inside
    have here := List.getElem?_eq_getElem inside
    obtain ⟨rank, listed⟩ := List.mem_iff_getElem?.mp
      (mem_sortedEntries.mpr ⟨slot, _, _, here, rfl⟩)
    have found' : slots[slot]? = some rank := ranked rank _ listed
    rw [found, Option.some.injEq] at found'
    exact ⟨_, found' ▸ listed, rfl⟩
  refine ⟨_, ran, length_columnsOf,
    ⟨_, rfl, areColumns_sortedEntries columns' valid⟩, ?_, slots_size, ?_, ?_,
    ?_⟩
  · rw [← length_entries, entries, List.length_map, length_sortedEntries]
  · intro slot slot' new found found'
    obtain ⟨entry, listed, same⟩ := origin slot new found
    obtain ⟨entry', listed', same'⟩ := origin slot' new found'
    obtain rfl : entry = entry' := Option.some.inj (listed.symm.trans listed')
    exact same.symm.trans same'
  · intro new inside
    rw [← length_sortedEntries] at inside
    have listed := List.getElem?_eq_getElem inside
    exact ⟨_, ranked new _ listed⟩
  · intro slot row col found
    obtain ⟨rank, listed⟩ := List.mem_iff_getElem?.mp
      (mem_sortedEntries.mpr ⟨slot, row, col, found, rfl⟩)
    obtain ⟨le, inside⟩ := entry_le columns' (List.mem_of_getElem? found)
    obtain ⟨row', _, foundRow, _⟩ :=
      valid.exists_place (Nat.lt_of_le_of_lt le inside)
    obtain ⟨col', _, foundCol, _⟩ := valid.exists_place inside
    refine ⟨rank, row', col', ranked rank _ listed, foundRow, foundCol, ?_⟩
    rw [entries, List.getElem?_map, listed]
    simp [movedEntry, Array.getD_eq_getD_getElem?, foundRow, foundCol]

end QuasiDefinite.Pattern
