import QuasiDefinite.Elimination.Schedule
import QuasiDefinite.Proofs.Compressed
import QuasiDefinite.Proofs.Sums

/-!
The schedule in closed form. The columns of the factor are the rows turned
over, and the entry in row `row` and column `col` has the slot behind those of
the earlier rows of the column (`ofRows_runs`). So the slots of a column before
that of `row` are exactly those of the earlier rows (`map_factorSlot`).
-/

namespace QuasiDefinite.Elimination

variable {rows : List (List Nat)} {count row col : Nat}

def rowAt (rows : List (List Nat)) (row : Nat) : List Nat :=
  rows.getD row []

/-- The rows with an entry in column `col`, of the first `count` rows. -/
def rowsBefore (rows : List (List Nat)) (count col : Nat) : List Nat :=
  (List.range count).filter fun row => (rowAt rows row).contains col

def columnLists (rows : List (List Nat)) : List (List Nat) :=
  (List.range rows.length).map (rowsBefore rows rows.length)

def factorSlot (rows : List (List Nat)) (col row : Nat) : Nat :=
  Compressed.base (columnLists rows) col + (rowsBefore rows row col).length

theorem mem_rowsBefore {other : Nat} :
    other ∈ rowsBefore rows count col ↔
      other < count ∧ col ∈ rowAt rows other := by
  simp [rowsBefore]

theorem rowsBefore_succ_of_mem (member : col ∈ rowAt rows row) :
    rowsBefore rows (row + 1) col = rowsBefore rows row col ++ [row] := by
  simp [rowsBefore, List.range_succ, member]

theorem rowsBefore_succ_of_notMem (absent : col ∉ rowAt rows row) :
    rowsBefore rows (row + 1) col = rowsBefore rows row col := by
  simp [rowsBefore, List.range_succ, absent]

theorem pairwise_rowsBefore : (rowsBefore rows count col).Pairwise (· < ·) :=
  List.pairwise_lt_range.filter _

theorem rowsBefore_initial {more : Nat} (le : count ≤ more) :
    rowsBefore rows count col <+: rowsBefore rows more col := by
  induction le with
  | refl => exact List.prefix_rfl
  | @step more _ ih =>
      by_cases member : col ∈ rowAt rows more
      · rw [rowsBefore_succ_of_mem member]
        exact ih.trans (List.prefix_append ..)
      · rw [rowsBefore_succ_of_notMem member]
        exact ih

theorem getElem?_columnLists (inside : col < rows.length) :
    (columnLists rows)[col]? = some (rowsBefore rows rows.length col) := by
  rw [columnLists, List.getElem?_map, List.getElem?_range inside]
  rfl

@[simp] theorem length_columnLists :
    (columnLists rows).length = rows.length := by
  simp [columnLists]

theorem getElem?_rowsBefore (below : row < count)
    (member : col ∈ rowAt rows row) :
    (rowsBefore rows count col)[(rowsBefore rows row col).length]? =
      some row := by
  obtain ⟨rest, split⟩ :=
    @rowsBefore_initial rows (row + 1) col count below
  rw [rowsBefore_succ_of_mem member, List.append_assoc] at split
  rw [← split, List.getElem?_append_right (Nat.le_refl _), Nat.sub_self]
  rfl

theorem base_le_factorSlot :
    Compressed.base (columnLists rows) col ≤ factorSlot rows col row :=
  Nat.le_add_right ..

theorem map_factorSlot :
    (rowsBefore rows count col).map (factorSlot rows col) =
      span (Compressed.base (columnLists rows) col)
        (factorSlot rows col count) := by
  induction count with
  | zero => simp [rowsBefore, factorSlot, span_self]
  | succ count ih =>
      by_cases member : col ∈ rowAt rows count
      · have next : factorSlot rows col (count + 1) =
            factorSlot rows col count + 1 := by
          simp [factorSlot, rowsBefore_succ_of_mem member, Nat.add_assoc]
        rw [rowsBefore_succ_of_mem member, List.map_append, ih, next,
          span_succ_right base_le_factorSlot]
        rfl
      · have next : factorSlot rows col (count + 1) =
            factorSlot rows col count := by
          simp [factorSlot, rowsBefore_succ_of_notMem member]
        rw [rowsBefore_succ_of_notMem member, ih, next]

theorem base_columnLists_succ (inside : col < rows.length) :
    Compressed.base (columnLists rows) (col + 1) =
      factorSlot rows col rows.length :=
  Compressed.base_succ (getElem?_columnLists inside)

theorem index_factorSlot (insideCol : col < rows.length)
    (insideRow : row < rows.length) (member : col ∈ rowAt rows row) :
    (Compressed.ofLists (columnLists rows)).index[factorSlot rows col row]? =
      some row := by
  have place := getElem?_rowsBefore insideRow member
  have small := (List.getElem?_eq_some_iff.mp place).1
  rw [factorSlot,
    Compressed.index_ofLists (getElem?_columnLists insideCol) small, place]

theorem factorSlot_injective {col' row' : Nat} (insideCol : col < rows.length)
    (insideCol' : col' < rows.length) (insideRow : row < rows.length)
    (insideRow' : row' < rows.length) (member : col ∈ rowAt rows row)
    (member' : col' ∈ rowAt rows row')
    (same : factorSlot rows col row = factorSlot rows col' row') :
    col = col' ∧ row = row' := by
  have found := index_factorSlot insideCol insideRow member
  have found' := index_factorSlot insideCol' insideRow' member'
  have small := (List.getElem?_eq_some_iff.mp
    (getElem?_rowsBefore insideRow member)).1
  have small' := (List.getElem?_eq_some_iff.mp
    (getElem?_rowsBefore insideRow' member')).1
  refine ⟨?_, ?_⟩
  · exact (Compressed.base_add_injective (getElem?_columnLists insideCol)
      (getElem?_columnLists insideCol') small small' same).1
  · rw [same, found'] at found
    exact (Option.some.inj found).symm

theorem exists_factorSlot {slot : Nat}
    (inside : slot < (Compressed.ofLists (columnLists rows)).index.size) :
    ∃ col row, col < rows.length ∧ row < rows.length ∧
      col ∈ rowAt rows row ∧ slot = factorSlot rows col row := by
  rw [Compressed.size_index] at inside
  obtain ⟨col, list, place, found, small, rfl⟩ :=
    Compressed.exists_place inside
  have insideCol : col < rows.length := by
    simpa using (List.getElem?_eq_some_iff.mp found).1
  rw [getElem?_columnLists insideCol, Option.some.injEq] at found
  subst found
  have member := List.getElem_mem small
  obtain ⟨insideRow, holds⟩ := mem_rowsBefore.mp member
  have slots := congrArg (·[place]?)
    (@map_factorSlot rows rows.length col)
  simp only [List.getElem?_map, List.getElem?_eq_getElem small] at slots
  refine ⟨col, _, insideCol, insideRow, holds, ?_⟩
  rw [span, List.getElem?_range' (by simpa [factorSlot] using small)] at slots
  simpa using slots.symm

/-! How many entries there are. -/

/-- Every row lists columns of the family, each once. -/
def RowsFit (rows : List (List Nat)) : Prop :=
  ∀ row, row < rows.length →
    (rowAt rows row).Nodup ∧ ∀ col ∈ rowAt rows row, col < rows.length

theorem getElem?_rows (inside : row < rows.length) :
    rows[row]? = some (rowAt rows row) := by
  simp [rowAt, inside]

theorem RowsFit.lt_of_mem_flatten (fits : RowsFit rows)
    (member : col ∈ rows.flatten) : col < rows.length := by
  obtain ⟨cols, listed, member⟩ := List.mem_flatten.mp member
  obtain ⟨row, inside, rfl⟩ := List.mem_iff_getElem.mp listed
  refine (fits row inside).2 col ?_
  simpa [rowAt, inside] using member

theorem length_rowsBefore (fits : RowsFit rows)
    (inside : count ≤ rows.length) :
    (rowsBefore rows count col).length =
      (rows.take count).flatten.count col := by
  induction count with
  | zero => simp [rowsBefore]
  | succ count ih =>
      have listed := getElem?_rows inside
      rw [List.take_add_one, listed, Option.toList_some, List.flatten_append,
        List.count_append, ← ih (Nat.le_of_succ_le inside)]
      by_cases member : col ∈ rowAt rows count
      · rw [rowsBefore_succ_of_mem member, List.length_append]
        simp [List.count_eq_one_of_mem (fits count inside).1 member]
      · rw [rowsBefore_succ_of_notMem member]
        simp [List.count_eq_zero.mpr member]

theorem base_columnLists_length (fits : RowsFit rows) :
    Compressed.base (columnLists rows) rows.length = rows.flatten.length := by
  have lengths : (columnLists rows).map List.length =
      (List.range rows.length).map fun col => rows.flatten.count col := by
    rw [columnLists, List.map_map]
    refine List.map_congr_left fun col _ => ?_
    rw [Function.comp_apply, length_rowsBefore fits (Nat.le_refl _),
      List.take_length]
  have all : (List.range rows.length).length ≤ rows.length := by simp
  rw [Compressed.base, lengths, ← List.map_take, List.take_of_length_le all,
    total_eq_sum, sum_map_range]
  have counted := @Multiset.sum_count_eq_card _ _ (Finset.range rows.length)
    rows.flatten fun col member =>
      Finset.mem_range.mpr (fits.lt_of_mem_flatten member)
  simpa using counted

theorem starts_runs (fits : RowsFit rows) :
    Compressed.starts rows.length (Compressed.ofLists rows).index =
      .ok (Compressed.ofLists (columnLists rows)).start := by
  have runs := @Compressed.starts_runs (columnLists rows)
    (Compressed.ofLists rows).index
  rw [length_columnLists] at runs
  refine runs (fun col member => fits.lt_of_mem_flatten member) ?_
  intro col list found
  have inside : col < rows.length := by
    simpa using (List.getElem?_eq_some_iff.mp found).1
  rw [getElem?_columnLists inside, Option.some.injEq] at found
  rw [← found, length_rowsBefore fits (Nat.le_refl _), List.take_length]
  rfl

/-! The schedule as it is computed. -/

def stepsOf (rows : List (List Nat)) (row : Nat) : List Step :=
  (rowAt rows row).map fun col => ⟨col, factorSlot rows col row⟩

def rowSlots (rows : List (List Nat)) (row : Nat) : List Nat :=
  (rowAt rows row).map fun col => factorSlot rows col row

def slotLists (rows : List (List Nat)) : List (List Nat) :=
  (List.range rows.length).map (rowSlots rows)

theorem map_length_slotLists :
    (slotLists rows).map List.length = rows.map List.length := by
  apply List.ext_getElem?
  intro row
  rw [slotLists, List.getElem?_map, List.getElem?_map, List.getElem?_map]
  by_cases inside : row < rows.length
  · simp [inside, rowSlots, rowAt]
  · simp [Nat.le_of_not_lt inside]

theorem base_slotLists :
    Compressed.base (slotLists rows) row = Compressed.base rows row := by
  rw [Compressed.base, Compressed.base, map_length_slotLists]

theorem start_slotLists : (Compressed.ofLists (slotLists rows)).start =
    (Compressed.ofLists rows).start := by
  rw [Compressed.ofLists, Compressed.ofLists, map_length_slotLists]

theorem getElem?_slotLists (inside : row < rows.length) :
    (slotLists rows)[row]? = some (rowSlots rows row) := by
  rw [slotLists, List.getElem?_map, List.getElem?_range inside]
  rfl

/-- The state of a filling: how many entries every column has taken, in the
order of their rows, and how many positions of the rows have their slot. -/
structure Filling.Shows (filling : Filling) (rows : List (List Nat))
    (taken : Nat → Nat) (placed : Nat) : Prop where
  next_size : filling.next.size = rows.length
  rowOf_size : filling.rowOf.size = rows.flatten.length
  slots_size : filling.slots.size = rows.flatten.length
  taken_le : ∀ col, col < rows.length →
    taken col ≤ (rowsBefore rows rows.length col).length
  next : ∀ col, col < rows.length → filling.next[col]? =
    some (Compressed.base (columnLists rows) col + taken col)
  rowOf : ∀ col place, col < rows.length → place < taken col →
    filling.rowOf[Compressed.base (columnLists rows) col + place]? =
      (rowsBefore rows rows.length col)[place]?
  slots : ∀ position, position < placed → filling.slots[position]? =
    (Compressed.ofLists (slotLists rows)).index[position]?

variable {filling : Filling} {taken : Nat → Nat} {placed : Nat}

theorem Filling.Shows.taken_lt (shown : filling.Shows rows taken placed)
    (fits : RowsFit rows) (inside : col < rows.length)
    (here : (rowsBefore rows rows.length col)[taken col]? = some row) :
    Compressed.base (columnLists rows) col + taken col <
      filling.rowOf.size := by
  have small := (List.getElem?_eq_some_iff.mp here).1
  have step := Compressed.base_succ (getElem?_columnLists inside)
  have mono := @Compressed.base_mono (columnLists rows) (col + 1) _ inside
  rw [shown.rowOf_size, ← base_columnLists_length fits]
  omega

theorem Filling.Shows.taken_le_next (shown : filling.Shows rows taken placed)
    (here : (rowsBefore rows rows.length col)[taken col]? = some row)
    {other : Nat} (inside : other < rows.length) :
    Function.update taken col (taken col + 1) other ≤
      (rowsBefore rows rows.length other).length := by
  by_cases same : other = col
  · subst same
    rw [Function.update_self]
    exact (List.getElem?_eq_some_iff.mp here).1
  · rw [Function.update_of_ne same]
    exact shown.taken_le other inside

theorem Filling.Shows.next_set (shown : filling.Shows rows taken placed)
    (inside : col < rows.length) {other : Nat}
    (insideOther : other < rows.length) :
    (filling.next.setIfInBounds col
        (Compressed.base (columnLists rows) col + taken col + 1))[other]? =
      some (Compressed.base (columnLists rows) other +
        Function.update taken col (taken col + 1) other) := by
  by_cases same : other = col
  · subst same
    have insideNext : other < filling.next.size := by rwa [shown.next_size]
    simp [insideNext, Nat.add_assoc]
  · rw [Array.getElem?_setIfInBounds_ne (Ne.symm same),
      Function.update_of_ne same]
    exact shown.next other insideOther

/-- The next slot of a column is behind all that it has taken, and in none of
the other columns. -/
theorem Filling.Shows.rowOf_set (shown : filling.Shows rows taken placed)
    (fits : RowsFit rows) (inside : col < rows.length)
    (here : (rowsBefore rows rows.length col)[taken col]? = some row)
    {other place : Nat} (insideOther : other < rows.length)
    (before : place < Function.update taken col (taken col + 1) other) :
    (filling.rowOf.setIfInBounds
        (Compressed.base (columnLists rows) col + taken col) row)[
          Compressed.base (columnLists rows) other + place]? =
      (rowsBefore rows rows.length other)[place]? := by
  by_cases same : Compressed.base (columnLists rows) col + taken col =
      Compressed.base (columnLists rows) other + place
  · have small := (List.getElem?_eq_some_iff.mp here).1
    have small' := shown.taken_le_next here insideOther
    obtain ⟨rfl, rfl⟩ := Compressed.base_add_injective
      (getElem?_columnLists inside) (getElem?_columnLists insideOther) small
      (Nat.lt_of_lt_of_le before small') same
    rw [Array.getElem?_setIfInBounds_self_of_lt
      (shown.taken_lt fits inside here), here]
  · rw [Array.getElem?_setIfInBounds_ne same]
    apply shown.rowOf other place insideOther
    by_cases same' : other = col
    · subst same'
      rw [Function.update_self] at before
      omega
    · rwa [Function.update_of_ne same'] at before

theorem Filling.Shows.place (shown : filling.Shows rows taken placed)
    (fits : RowsFit rows) (inside : col < rows.length)
    (listed : (Compressed.ofLists rows).index[placed]? = some col)
    (here : (rowsBefore rows rows.length col)[taken col]? = some row)
    (slot : (Compressed.ofLists (slotLists rows)).index[placed]? =
      some (Compressed.base (columnLists rows) col + taken col)) :
    ∃ new, Filling.place (Compressed.ofLists rows).index row filling placed =
        .ok new ∧
      new.Shows rows (Function.update taken col (taken col + 1))
        (placed + 1) := by
  have insideNext : col < filling.next.size := by rwa [shown.next_size]
  have insideRows := shown.taken_lt fits inside here
  have insideSlots : placed < filling.slots.size := by
    rw [shown.slots_size]
    simpa [Compressed.ofLists] using (Array.getElem?_eq_some_iff.mp listed).1
  rw [Filling.place, Checked.get_eq_ok_iff.mpr listed, Checked.ok_bind,
    Checked.get_eq_ok_iff.mpr (shown.next col inside), Checked.ok_bind,
    Checked.set_eq_ok_iff.mpr ⟨insideRows, rfl⟩, Checked.ok_bind,
    Checked.set_eq_ok_iff.mpr ⟨insideSlots, rfl⟩, Checked.ok_bind,
    Checked.set_eq_ok_iff.mpr ⟨insideNext, rfl⟩]
  refine ⟨_, rfl, by simpa using shown.next_size,
    by simpa using shown.rowOf_size, by simpa using shown.slots_size,
    fun _ => shown.taken_le_next here, fun _ => shown.next_set inside,
    fun _ _ => shown.rowOf_set fits inside here, ?_⟩
  intro position before
  by_cases same : placed = position
  · subst same
    rw [Array.getElem?_setIfInBounds_self_of_lt insideSlots, slot]
  · rw [Array.getElem?_setIfInBounds_ne same]
    exact shown.slots position (by omega)

/-- How many entries column `col` has taken when `place` entries of row `row`
have their slots. -/
def takenIn (rows : List (List Nat)) (row place col : Nat) : Nat :=
  (rowsBefore rows row col).length +
    if col ∈ (rowAt rows row).take place then 1 else 0

theorem takenIn_zero :
    takenIn rows row 0 = fun col => (rowsBefore rows row col).length := by
  funext col
  simp [takenIn]

theorem takenIn_all : takenIn rows row (rowAt rows row).length =
    fun col => (rowsBefore rows (row + 1) col).length := by
  funext col
  rw [takenIn, List.take_length]
  by_cases member : col ∈ rowAt rows row
  · rw [rowsBefore_succ_of_mem member, if_pos member, List.length_append,
      List.length_singleton]
  · rw [rowsBefore_succ_of_notMem member, if_neg member, Nat.add_zero]

theorem takenIn_self {place : Nat} (nodup : (rowAt rows row).Nodup)
    (here : (rowAt rows row)[place]? = some col) :
    takenIn rows row place col = (rowsBefore rows row col).length := by
  obtain ⟨inside, found⟩ := List.getElem?_eq_some_iff.mp here
  have fresh : col ∉ (rowAt rows row).take place := by
    intro early
    obtain ⟨k, below, same⟩ := List.mem_take_iff_getElem.mp early
    have := nodup.getElem_inj_iff.mp (same.trans found.symm)
    omega
  rw [takenIn, if_neg fresh, Nat.add_zero]

theorem takenIn_succ {place : Nat} (nodup : (rowAt rows row).Nodup)
    (here : (rowAt rows row)[place]? = some col) :
    takenIn rows row (place + 1) = Function.update (takenIn rows row place) col
      (takenIn rows row place col + 1) := by
  funext other
  have grows : (rowAt rows row).take (place + 1) =
      (rowAt rows row).take place ++ [col] := by
    rw [List.take_add_one, here, Option.toList_some]
  by_cases same : other = col
  · subst same
    rw [Function.update_self, takenIn_self nodup here]
    simp [takenIn, grows]
  · rw [Function.update_of_ne same]
    simp [takenIn, grows, same]

theorem Filling.Shows.placeNext {place : Nat} (fits : RowsFit rows)
    (inside : row < rows.length)
    (here : (rowAt rows row)[place]? = some col)
    (shown : filling.Shows rows (takenIn rows row place)
      (Compressed.base rows row + place)) :
    ∃ new, Filling.place (Compressed.ofLists rows).index row filling
        (Compressed.base rows row + place) = .ok new ∧
      new.Shows rows (takenIn rows row (place + 1))
        (Compressed.base rows row + (place + 1)) := by
  obtain ⟨nodup, small⟩ := fits row inside
  have insidePlace := (List.getElem?_eq_some_iff.mp here).1
  have member := List.mem_of_getElem? here
  have insideSlots : place < (rowSlots rows row).length := by
    rwa [rowSlots, List.length_map]
  rw [takenIn_succ nodup here]
  refine shown.place fits (small col member) ?_ ?_ ?_
  · rw [Compressed.index_ofLists (getElem?_rows inside) insidePlace, here]
  · rw [takenIn_self nodup here, getElem?_rowsBefore inside member]
  · rw [takenIn_self nodup here, ← base_slotLists,
      Compressed.index_ofLists (getElem?_slotLists inside) insideSlots,
      rowSlots, List.getElem?_map, here]
    rfl

theorem Filling.Shows.addRow (fits : RowsFit rows) (inside : row < rows.length)
    (shown : filling.Shows rows (fun col => (rowsBefore rows row col).length)
      (Compressed.base rows row)) :
    ∃ new, Filling.addRow (.ofLists rows) filling row = .ok new ∧
      new.Shows rows (fun col => (rowsBefore rows (row + 1) col).length)
        (Compressed.base rows (row + 1)) := by
  rw [Filling.addRow, Compressed.positions_ofLists inside, Checked.ok_bind,
    Compressed.base_succ (getElem?_rows inside), span_add, List.foldlM_map,
    ← takenIn_all]
  rw [← takenIn_zero] at shown
  exact Checked.foldlM_range_runs
    (fun place (filling : Filling) => filling.Shows rows
      (takenIn rows row place) (Compressed.base rows row + place)) shown
    fun place filling insidePlace shown =>
      shown.placeNext fits inside (List.getElem?_eq_getElem insidePlace)

theorem Filling.Shows.rowOf_eq (fits : RowsFit rows)
    (shown : filling.Shows rows
      (fun col => (rowsBefore rows rows.length col).length) placed) :
    filling.rowOf = (Compressed.ofLists (columnLists rows)).index := by
  have size : (Compressed.ofLists (columnLists rows)).index.size =
      rows.flatten.length := by
    rw [Compressed.size_index, length_columnLists, base_columnLists_length fits]
  refine Checked.ext_of_size shown.rowOf_size size fun position inside => ?_
  rw [← size, Compressed.size_index] at inside
  obtain ⟨col, list, place, found, small, rfl⟩ :=
    Compressed.exists_place inside
  have insideCol : col < rows.length := by
    simpa using (List.getElem?_eq_some_iff.mp found).1
  rw [Compressed.index_ofLists found small]
  rw [getElem?_columnLists insideCol, Option.some.injEq] at found
  subst found
  exact shown.rowOf col place insideCol small

theorem Filling.Shows.slots_eq
    (shown : filling.Shows rows taken rows.flatten.length) :
    filling.slots = (Compressed.ofLists (slotLists rows)).index := by
  refine Checked.ext_of_size shown.slots_size ?_ shown.slots
  rw [Compressed.size_index, base_slotLists, slotLists, List.length_map,
    List.length_range, Compressed.base_length]

theorem Filling.shows_start (rows : List (List Nat)) :
    Filling.Shows
      ⟨((Compressed.ofLists (columnLists rows)).start.toList.take
          rows.length).toArray,
        .replicate (Compressed.ofLists rows).index.size 0,
        .replicate (Compressed.ofLists rows).index.size 0⟩
      rows (fun col => (rowsBefore rows 0 col).length)
      (Compressed.base rows 0) where
  next_size := by
    have size : (Compressed.ofLists (columnLists rows)).start.size =
        rows.length + 1 := by
      rw [Compressed.size_start, length_columnLists]
    simp [size]
  rowOf_size := by simp [Compressed.ofLists]
  slots_size := by simp [Compressed.ofLists]
  taken_le := by simp [rowsBefore]
  next col inside := by
    have found := @Compressed.start_ofLists (columnLists rows) col
      (by rw [length_columnLists]; omega)
    simpa [rowsBefore, inside, List.getElem?_take] using found
  rowOf := by simp [rowsBefore]
  slots := by simp

/-- The schedule of rows that fit is the one in closed form. -/
theorem Schedule.ofRows_runs (fits : RowsFit rows) :
    Schedule.ofRows rows.length (.ofLists rows) =
      .ok ⟨.ofLists (columnLists rows),
        (Compressed.ofLists (slotLists rows)).index⟩ := by
  have start_size : (Compressed.ofLists (columnLists rows)).start.size =
      rows.length + 1 := by
    rw [Compressed.size_start, length_columnLists]
  have first := @Checked.slice_eq_ok _
    (Compressed.ofLists (columnLists rows)).start 0 rows.length
    (Nat.zero_le _) (by omega)
  obtain ⟨filling, ran, shown⟩ := Checked.foldlM_range_runs
    (fun row (filling : Filling) => filling.Shows rows
      (fun col => (rowsBefore rows row col).length)
      (Compressed.base rows row))
    (Filling.shows_start rows)
    fun _ _ inside shown => shown.addRow fits inside
  rw [Compressed.base_length] at shown
  rw [Schedule.ofRows, starts_runs fits, Checked.ok_bind, first,
    Checked.ok_bind]
  dsimp only
  rw [List.drop_zero, Nat.sub_zero, ran, Checked.ok_bind, shown.rowOf_eq fits,
    shown.slots_eq]
  rfl

end QuasiDefinite.Elimination
