import QuasiDefinite.Pattern.Build
import QuasiDefinite.Proofs.Pattern.Slots

namespace QuasiDefinite.Pattern

/-- The patterns that some constructor returns. -/
inductive Constructed (pattern : Pattern) : Prop
  | upper {size : Nat} {entries : List (Nat × Nat)}
      (built : ofUpperEntries size entries = .ok pattern)
  | full {size : Nat} {entries : List (Nat × Nat)}
      (built : ofFullEntries size entries = .ok pattern)
  | matrix {α : Type} {matrix : Sparse α}
      (built : ofMatrix matrix = .ok pattern)
  | compressed {size : Nat} {upper : Compressed}
      (built : ofCompressed size upper = .ok (.ok pattern))

theorem areColumns_diagonalColumns (size : Nat) :
    AreColumns (diagonalColumns size).toList := by
  intro col rows listed
  rw [Array.getElem?_toList, diagonalColumns, Array.getElem?_map,
    Array.getElem?_range] at listed
  split at listed
  · cases listed
    exact ⟨List.pairwise_singleton .., rfl⟩
  · cases listed

theorem AreColumns.modify {columns : Array (List Nat)} {row col : Nat}
    (areColumns : AreColumns columns.toList) (upper : row ≤ col) :
    AreColumns (columns.modify col (insertRow row)).toList := by
  intro other rows listed
  rw [Array.getElem?_toList, Array.getElem?_modify] at listed
  split at listed
  · next same =>
    subst same
    obtain ⟨before, found, rfl⟩ := Option.map_eq_some_iff.mp listed
    rw [← Array.getElem?_toList] at found
    exact isColumn_insertRow (areColumns col before found) upper
  · rw [← Array.getElem?_toList] at listed
    exact areColumns other rows listed

theorem checkUpper_eq_ok_iff {size row col : Nat} :
    checkUpper size row col = .ok () ↔ row ≤ col ∧ col < size := by
  rw [checkUpper, checkRange]
  by_cases inside : row < size ∧ col < size
  · rw [if_pos inside, Checked.ok_bind]
    by_cases below : col < row
    · rw [if_pos below]
      exact iff_of_false nofun fun upper => Nat.not_le_of_lt below upper.1
    · rw [if_neg below]
      exact iff_of_true rfl ⟨Nat.le_of_not_lt below, inside.2⟩
  · rw [if_neg inside]
    exact iff_of_false nofun fun upper =>
      inside ⟨Nat.lt_of_le_of_lt upper.1 upper.2, upper.2⟩

theorem areColumns_foldl {entries : List (Nat × Nat)}
    {columns : Array (List Nat)} (areColumns : AreColumns columns.toList)
    (upper : ∀ entry ∈ entries, entry.1 ≤ entry.2) :
    AreColumns (entries.foldl (fun columns (row, col) =>
      columns.modify col (insertRow row)) columns).toList := by
  induction entries generalizing columns with
  | nil => exact areColumns
  | cons entry rest ih =>
      exact ih (areColumns.modify (upper entry (List.mem_cons_self ..)))
        fun other member => upper other (List.mem_cons_of_mem _ member)

theorem wellFormed_ofUpperEntries {size : Nat} {entries : List (Nat × Nat)}
    {pattern : Pattern} (built : ofUpperEntries size entries = .ok pattern) :
    pattern.WellFormed := by
  rw [ofUpperEntries, Checked.bind_eq_ok_iff] at built
  obtain ⟨⟨⟩, checked, made⟩ := built
  cases made
  refine ⟨_, rfl, areColumns_foldl (areColumns_diagonalColumns size) ?_⟩
  rintro ⟨row, col⟩ member
  exact (checkUpper_eq_ok_iff.mp (Checked.forM_eq_ok checked _ member)).1

/-! The entries that coordinates become. -/

def Lists (columns : Array (List Nat)) (row col : Nat) : Prop :=
  ∃ rows, columns[col]? = some rows ∧ row ∈ rows

theorem lists_diagonalColumns {size row col : Nat} :
    Lists (diagonalColumns size) row col ↔ row = col ∧ col < size := by
  simp only [Lists, diagonalColumns, Array.getElem?_map, Array.getElem?_range]
  by_cases inside : col < size
  · simp [inside]
  · simp [inside]

theorem lists_modify {columns : Array (List Nat)} {row col row' col' : Nat} :
    Lists (columns.modify col' (insertRow row')) row col ↔
      Lists columns row col ∨
        (row, col) = (row', col') ∧ col < columns.size := by
  simp only [Lists, Array.getElem?_modify, Prod.mk.injEq]
  by_cases same : col' = col
  · subst same
    by_cases inside : col' < columns.size
    · simp [inside, mem_insertRow, or_comm]
    · simp [inside]
  · simp [same, Ne.symm same]

theorem lists_foldl {entries : List (Nat × Nat)} {columns : Array (List Nat)}
    {row col : Nat} :
    Lists (entries.foldl (fun columns (row, col) =>
      columns.modify col (insertRow row)) columns) row col ↔
      Lists columns row col ∨ (row, col) ∈ entries ∧ col < columns.size := by
  induction entries generalizing columns with
  | nil => simp
  | cons entry rest ih =>
      rw [List.foldl_cons, ih, lists_modify, Array.size_modify,
        List.mem_cons, or_and_right, or_assoc]

theorem size_foldl {entries : List (Nat × Nat)}
    {columns : Array (List Nat)} :
    (entries.foldl (fun columns (row, col) =>
      columns.modify col (insertRow row)) columns).size = columns.size := by
  induction entries generalizing columns with
  | nil => rfl
  | cons entry rest ih => rw [List.foldl_cons, ih, Array.size_modify]

theorem ofUpperEntries_runs {size : Nat} {entries : List (Nat × Nat)}
    (upper : ∀ entry ∈ entries, entry.1 ≤ entry.2 ∧ entry.2 < size) :
    ∃ pattern, ofUpperEntries size entries = .ok pattern ∧
      pattern.size = size ∧ ∀ row col, (row, col) ∈ pattern.entries ↔
        (row, col) ∈ entries ∨ row = col ∧ col < size := by
  have passed : entries.forM (fun (row, col) => checkUpper size row col) =
      .ok () := by
    apply Checked.forM_runs
    rintro ⟨row, col⟩ member
    exact checkUpper_eq_ok_iff.mpr (upper _ member)
  refine ⟨_, by rw [ofUpperEntries, passed]; rfl, ?_, fun row col => ?_⟩
  · rw [size_ofColumns, Array.length_toList, size_foldl]
    simp [diagonalColumns]
  · rw [mem_entries]
    simp only [Array.getElem?_toList]
    rw [← Lists, lists_foldl, lists_diagonalColumns, or_comm]
    have size_eq : (diagonalColumns size).size = size := by
      simp [diagonalColumns]
    rw [size_eq]
    exact or_congr_left (and_iff_left_of_imp fun member =>
      (upper _ member).2)

theorem areColumns_place {entries : List (Nat × Nat)}
    {triangles : Triangles} (areColumns : AreColumns triangles.upper.toList) :
    AreColumns (entries.foldl (fun triangles (row, col) =>
      Triangles.place triangles row col) triangles).upper.toList := by
  induction entries generalizing triangles with
  | nil => exact areColumns
  | cons entry rest ih =>
      refine ih ?_
      dsimp only [Triangles.place]
      split
      · next upper => exact areColumns.modify upper
      · exact areColumns

theorem wellFormed_ofFullEntries {size : Nat} {entries : List (Nat × Nat)}
    {pattern : Pattern} (built : ofFullEntries size entries = .ok pattern) :
    pattern.WellFormed := by
  rw [ofFullEntries, Checked.bind_eq_ok_iff] at built
  obtain ⟨⟨⟩, _, built⟩ := built
  rw [Checked.bind_eq_ok_iff] at built
  obtain ⟨⟨⟩, _, made⟩ := built
  cases made
  exact ⟨_, rfl, areColumns_place (areColumns_diagonalColumns size)⟩

theorem wellFormed_ofMatrix {α : Type} {matrix : Sparse α} {pattern : Pattern}
    (built : ofMatrix matrix = .ok pattern) : pattern.WellFormed := by
  rw [ofMatrix] at built
  split at built
  · cases built
  · dsimp only at built
    split at built
    · exact wellFormed_ofUpperEntries built
    · exact wellFormed_ofFullEntries built

theorem pairwise_of_adjacent {rows : List Nat}
    (adjacent : ∀ pair ∈ rows.zip rows.tail, pair.1 < pair.2) :
    rows.Pairwise (· < ·) := by
  induction rows with
  | nil => exact .nil
  | cons row rest ih =>
      cases rest with
      | nil => exact List.pairwise_singleton ..
      | cons next rest =>
          have below : row < next := adjacent (row, next) (by simp)
          have ascending := ih fun pair member =>
            adjacent pair (List.mem_cons_of_mem _ member)
          refine List.pairwise_cons.mpr ⟨fun other member => ?_, ascending⟩
          cases member with
          | head => exact below
          | tail _ member =>
              exact Nat.lt_trans below
                ((List.pairwise_cons.mp ascending).1 other member)

theorem isColumn_of_checkColumn {col : Nat} {rows : List Nat}
    (passed : checkColumn col rows = .ok ()) : IsColumn col rows := by
  rw [checkColumn] at passed
  split at passed
  · cases passed
  · next ascending =>
    refine ⟨?_, ?_⟩
    · refine pairwise_of_adjacent fun pair member => ?_
      refine Nat.lt_of_not_le fun le => ascending ?_
      exact List.any_eq_true.mpr ⟨pair, member, by simpa using le⟩
    · dsimp only at passed
      split at passed
      · next last ends =>
        split at passed
        · next same => rw [ends, same]
        · split at passed <;> cases passed
      · cases passed

theorem checkAllStored_mem {upper : Compressed} {cols : List Nat}
    (passed : checkAllStored upper cols = .ok (.ok ())) :
    ∀ col ∈ cols, checkStored upper col = .ok (.ok ()) := by
  induction cols with
  | nil => simp
  | cons col rest ih =>
      rw [checkAllStored, Checked.bind_eq_ok_iff] at passed
      obtain ⟨answer, first, passed⟩ := passed
      cases answer with
      | error flaw => cases passed
      | ok _ =>
          intro other member
          cases member with
          | head => exact first
          | tail _ member => exact ih passed other member

theorem checkStored_eq_ok {upper : Compressed} {col : Nat}
    (passed : checkStored upper col = .ok (.ok ())) :
    ∃ first last, upper.start[col]? = some first ∧
      upper.start[col + 1]? = some last ∧ first ≤ last ∧
      last ≤ upper.index.size ∧
      IsColumn col ((upper.index.toList.drop first).take (last - first)) := by
  rw [checkStored, Checked.bind_eq_ok_iff] at passed
  obtain ⟨first, foundFirst, passed⟩ := passed
  rw [Checked.bind_eq_ok_iff] at passed
  obtain ⟨last, foundLast, passed⟩ := passed
  rw [Checked.get_eq_ok_iff] at foundFirst foundLast
  split at passed
  · cases passed
  · next ascending =>
    have le := Nat.le_of_not_lt ascending
    have inside : last ≤ upper.index.size := by
      by_contra outside
      rw [Checked.slice, if_neg ascending,
        if_pos (Nat.lt_of_not_le outside)] at passed
      cases passed
    rw [Checked.slice_eq_ok le inside] at passed
    refine ⟨first, last, foundFirst, foundLast, le, inside, ?_⟩
    exact isColumn_of_checkColumn (Except.ok.inj passed)

def Stores (upper : Compressed) (columns : List (List Nat)) : Prop :=
  ∀ (col : Nat) (rows : List Nat), columns[col]? = some rows →
    ∃ first last, upper.start[col]? = some first ∧
      upper.start[col + 1]? = some last ∧ first ≤ last ∧
      last ≤ upper.index.size ∧
      rows = (upper.index.toList.drop first).take (last - first)

section Stores

variable {upper : Compressed} {columns : List (List Nat)}

theorem Stores.filled (stores : Stores upper columns)
    (starts : upper.start[0]? = some 0) {count : Nat}
    (inside : count ≤ columns.length) :
    upper.start[count]? = some (Compressed.base columns count) ∧
      (columns.take count).flatten =
        upper.index.toList.take (Compressed.base columns count) := by
  induction count with
  | zero => exact ⟨starts, by simp⟩
  | succ count ih =>
      obtain ⟨start, held⟩ := ih (Nat.le_of_succ_le inside)
      have listed := List.getElem?_eq_getElem inside
      obtain ⟨first, last, foundFirst, foundLast, le, small, rows_eq⟩ :=
        stores count _ listed
      obtain rfl : first = Compressed.base columns count :=
        Option.some.inj (foundFirst.symm.trans start)
      have length : (columns[count]).length =
          last - Compressed.base columns count := by
        rw [rows_eq, List.length_take, List.length_drop, Array.length_toList]
        omega
      have next : Compressed.base columns (count + 1) = last := by
        rw [Compressed.base_succ listed, length]
        omega
      have grows : last = Compressed.base columns count +
          (last - Compressed.base columns count) := by omega
      refine ⟨next ▸ foundLast, ?_⟩
      rw [next, List.take_succ_eq_append_getElem inside, List.flatten_append,
        held, grows, List.take_add]
      simp [rows_eq]

/-- Compressed lists are determined by where they start and what they hold. -/
theorem eq_ofLists (size_eq : upper.start.size = columns.length + 1)
    (starts : upper.start[0]? = some 0)
    (ends : upper.start[columns.length]? = some upper.index.size)
    (stores : Stores upper columns) : upper = .ofLists columns := by
  obtain ⟨full, held⟩ := stores.filled starts (Nat.le_refl _)
  have total : Compressed.base columns columns.length = upper.index.size :=
    Option.some.inj (full.symm.trans ends)
  have index : upper.index = columns.flatten.toArray := by
    have all : upper.index.toList.take upper.index.size =
        upper.index.toList := List.take_length
    rw [total, List.take_length, all] at held
    exact Array.ext' held.symm
  have start : upper.start = (Compressed.ofLists columns).start := by
    apply Array.ext_getElem?
    intro k
    by_cases inside : k ≤ columns.length
    · rw [(stores.filled starts inside).1, Compressed.start_ofLists inside]
    · rw [Array.getElem?_eq_none (by omega),
        Array.getElem?_eq_none (by rw [Compressed.size_start]; omega)]
  cases upper
  simp only at index start
  rw [index, start]
  rfl

end Stores

theorem wellFormed_of_stored {size : Nat} {upper : Compressed}
    (size_eq : upper.start.size = size + 1)
    (starts : upper.start[0]? = some 0)
    (ends : upper.start[size]? = some upper.index.size)
    (stored : ∀ col, col < size → ∃ first last,
      upper.start[col]? = some first ∧ upper.start[col + 1]? = some last ∧
        first ≤ last ∧ last ≤ upper.index.size ∧
        IsColumn col ((upper.index.toList.drop first).take (last - first))) :
    WellFormed ⟨size, upper⟩ := by
  let start := fun col => upper.start.getD col 0
  let columns := (List.range size).map fun col =>
    (upper.index.toList.drop (start col)).take (start (col + 1) - start col)
  have length : columns.length = size := by simp [columns]
  have listed : ∀ (col : Nat) (rows : List Nat), columns[col]? = some rows →
      ∃ first last, upper.start[col]? = some first ∧
        upper.start[col + 1]? = some last ∧ first ≤ last ∧
        last ≤ upper.index.size ∧ IsColumn col rows ∧
        rows = (upper.index.toList.drop first).take (last - first) := by
    intro col rows found
    have inside : col < size := by
      rw [← length]
      exact (List.getElem?_eq_some_iff.mp found).1
    obtain ⟨first, last, foundFirst, foundLast, le, small, column⟩ :=
      stored col inside
    have same : rows =
        (upper.index.toList.drop first).take (last - first) := by
      simp only [columns, List.getElem?_map, List.getElem?_range inside,
        Option.map_some, Option.some.injEq, start,
        Array.getD_eq_getD_getElem?, foundFirst, foundLast,
        Option.getD_some] at found
      exact found.symm
    exact ⟨first, last, foundFirst, foundLast, le, small, same ▸ column, same⟩
  refine ⟨columns, ?_, fun col rows found => ?_⟩
  · rw [ofColumns, length, ← eq_ofLists (by rw [length, size_eq]) starts
      (by rw [length, ends])]
    intro col rows found
    obtain ⟨first, last, foundFirst, foundLast, le, small, _, same⟩ :=
      listed col rows found
    exact ⟨first, last, foundFirst, foundLast, le, small, same⟩
  · obtain ⟨_, _, _, _, _, _, column, _⟩ := listed col rows found
    exact column

theorem wellFormed_ofCompressed {size : Nat} {upper : Compressed}
    {pattern : Pattern}
    (built : ofCompressed size upper = .ok (.ok pattern)) :
    pattern.WellFormed := by
  rw [ofCompressed] at built
  split at built
  · cases built
  · next size_eq =>
    rw [Checked.bind_eq_ok_iff] at built
    obtain ⟨first, foundFirst, built⟩ := built
    rw [Checked.bind_eq_ok_iff] at built
    obtain ⟨last, foundLast, built⟩ := built
    rw [Checked.get_eq_ok_iff] at foundFirst foundLast
    split at built
    · cases built
    · next ends =>
      obtain ⟨rfl, rfl⟩ : first = 0 ∧ last = upper.index.size := by omega
      rw [Checked.bind_eq_ok_iff] at built
      obtain ⟨answer, passed, made⟩ := built
      cases answer with
      | error flaw => cases made
      | ok _ =>
          cases made
          exact wellFormed_of_stored (by omega) foundFirst foundLast
            fun col inside => checkStored_eq_ok
              (checkAllStored_mem passed col (List.mem_range.mpr inside))

theorem wellFormed_of_constructed {pattern : Pattern}
    (constructed : pattern.Constructed) : pattern.WellFormed := by
  cases constructed with
  | upper built => exact wellFormed_ofUpperEntries built
  | full built => exact wellFormed_ofFullEntries built
  | matrix built => exact wellFormed_ofMatrix built
  | compressed built => exact wellFormed_ofCompressed built

end QuasiDefinite.Pattern
