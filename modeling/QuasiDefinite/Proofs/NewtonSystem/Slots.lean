import QuasiDefinite.Proofs.NewtonSystem.Entries
import QuasiDefinite.Proofs.Pattern.Constructed

/-!
The slots of a system. Every block is written to slots of its own, in the order
in which it stores its entries, so that a write changes the entries of one block
and no others (`Pattern.Shows.written`, `SlotMap.Indexes`).
-/

namespace QuasiDefinite

variable {α : Type} {pattern : Pattern} {layout : Layout} {blocks : Blocks α}
  {slots : SlotMap} {block : Block} {row col slot i j : Nat}

theorem checkLength_eq_ok_iff {quantity : Quantity} {expected actual : Nat} :
    checkLength (α := α) quantity expected actual = .ok () ↔
      expected = actual := by
  rw [checkLength]
  split
  · next same => exact iff_of_true rfl same
  · next differ => exact iff_of_false (by simp) differ

theorem checkShape_eq_ok_iff {matrix : Option (Sparse α)} :
    checkShape layout block matrix = .ok () ↔
      ∀ present, matrix = some present →
        (present.rows, present.cols) = layout.shape block := by
  cases matrix with
  | none => simp [checkShape]
  | some matrix =>
      rw [checkShape, Checked.bind_eq_ok_iff]
      simp only [checkLength_eq_ok_iff, Option.some.injEq, forall_eq',
        Prod.ext_iff]
      constructor
      · rintro ⟨⟨⟩, rows, cols⟩
        exact ⟨(checkLength_eq_ok_iff.mp rows).symm, cols.symm⟩
      · rintro ⟨rows, cols⟩
        exact ⟨(), checkLength_eq_ok_iff.mpr rows.symm, cols.symm⟩

/-- The slots of a pattern show a function of row and column. -/
structure Pattern.Shows (pattern : Pattern) (values : Array α)
    (entry : Nat → Nat → α) : Prop where
  size_values : values.size = pattern.slotCount
  held : ∀ slot row col : Nat, pattern.entries[slot]? = some (row, col) →
    values[slot]? = some (entry row col)

def written (pairs : List (Nat × α)) (values : Array α) : Array α :=
  pairs.foldl (fun values (slot, value) => values.setIfInBounds slot value)
    values

theorem written_append (pairs more : List (Nat × α)) (values : Array α) :
    written (pairs ++ more) values = written more (written pairs values) :=
  List.foldl_append

theorem size_written (pairs : List (Nat × α)) (values : Array α) :
    (written pairs values).size = values.size := by
  induction pairs generalizing values with
  | nil => rfl
  | cons pair rest ih =>
      exact (ih _).trans Array.size_setIfInBounds

theorem getElem?_written {pairs : List (Nat × α)} {values : Array α}
    {value : α} (inside : slot < values.size)
    (agrees : ∀ other, (slot, other) ∈ pairs → other = value)
    (covered : slot ∈ pairs.map Prod.fst ∨ values[slot]? = some value) :
    (written pairs values)[slot]? = some value := by
  induction pairs generalizing values with
  | nil => exact covered.resolve_left List.not_mem_nil
  | cons pair rest ih =>
      obtain ⟨first, new⟩ := pair
      refine @ih (values.setIfInBounds first new)
        (by rwa [Array.size_setIfInBounds])
        (fun other member => agrees other (List.mem_cons_of_mem _ member)) ?_
      by_cases same : first = slot
      · subst same
        right
        rw [Array.getElem?_setIfInBounds_self_of_lt inside,
          agrees new (List.mem_cons_self ..)]
      · rw [Array.getElem?_setIfInBounds_ne same]
        refine covered.imp_left fun member => ?_
        rw [List.map_cons, List.mem_cons] at member
        exact member.resolve_left (Ne.symm same)

theorem Pattern.Shows.written (wellFormed : pattern.WellFormed)
    {values : Array α} {before after : Nat → Nat → α}
    (shows' : pattern.Shows values before) {pairs : List (Nat × α)}
    (placed : ∀ slot value, (slot, value) ∈ pairs → ∃ row col,
      pattern.entries[slot]? = some (row, col) ∧ after row col = value)
    (rest : ∀ slot row col : Nat, pattern.entries[slot]? = some (row, col) →
      slot ∉ pairs.map Prod.fst → after row col = before row col) :
    pattern.Shows (written pairs values) after := by
  refine ⟨(size_written ..).trans shows'.size_values,
    fun slot row col found => ?_⟩
  have inside := (List.getElem?_eq_some_iff.mp found).1
  rw [wellFormed.length_entries, ← shows'.size_values] at inside
  refine getElem?_written inside (fun value member => ?_) ?_
  · obtain ⟨row', col', found', rfl⟩ := placed slot value member
    rw [found, Option.some.injEq, Prod.mk.injEq] at found'
    obtain ⟨rfl, rfl⟩ := found'
    rfl
  · by_cases member : slot ∈ pairs.map Prod.fst
    · exact .inl member
    · right
      rw [rest slot row col found member]
      exact shows'.held slot row col found

/-! The slots of blocks. -/

def Layout.slot? (layout : Layout) (pattern : Pattern) (block : Block)
    (place : Nat × Nat) : Option Nat :=
  (layout.position block place.1 place.2).bind fun (row, col) =>
    pattern.slot? row col

structure SlotMap.Indexes (slots : SlotMap) (pattern : Pattern)
    (layout : Layout) (blocks : Blocks α) : Prop where
  block : ∀ block, slots.get block =
    (blocks.coordinates block).map (layout.slot? pattern block)
  slack : slots.slack.map some =
    layout.slackPositions.map fun (row, col) => pattern.slot? row col
  barrier : slots.barrier = (List.range layout.inequalities).map fun i =>
    pattern.diagonalSlot (layout.slackStart + i)

def blockPairs (slots : List (Option Nat)) (values : List α) :
    List (Nat × α) :=
  (slots.zip values).filterMap fun (slot, value) =>
    slot.map fun slot => (slot, value)

theorem writeBlock_eq (slots : List (Option Nat))
    (matrix : Option (Sparse α)) (values : Array α) :
    writeBlock slots matrix values =
      written (blockPairs slots (matrix.elim [] Sparse.values)) values := by
  rw [writeBlock, written, blockPairs, List.foldl_filterMap]
  congr 1
  funext values (slot, value)
  cases slot <;> rfl

namespace Pattern.WellFormed

theorem slot?_of_entry (wellFormed : pattern.WellFormed)
    (found : pattern.entries[slot]? = some (row, col)) :
    pattern.slot? row col = some slot := by
  have upper := (wellFormed.entry_le (List.mem_of_getElem? found)).1
  rwa [wellFormed.slot?_eq_some_iff, Nat.min_eq_left upper,
    Nat.max_eq_right upper]

theorem entry_of_slot? (wellFormed : pattern.WellFormed) (upper : row ≤ col)
    (slotted : pattern.slot? row col = some slot) :
    pattern.entries[slot]? = some (row, col) := by
  rwa [wellFormed.slot?_eq_some_iff, Nat.min_eq_left upper,
    Nat.max_eq_right upper] at slotted

theorem entry_diagonalSlot (wellFormed : pattern.WellFormed)
    (inside : col < pattern.size) :
    pattern.entries[pattern.diagonalSlot col]? = some (col, col) := by
  obtain ⟨_, last, _, found, diagonal, _⟩ := wellFormed.exists_slots inside
  rw [diagonalSlot, first, getD_of_getElem? found]
  exact diagonal

end Pattern.WellFormed

namespace SlotMap.Indexes

variable {values : List α}

theorem mem_blockPairs (indexes : slots.Indexes pattern layout blocks)
    {value : α} : (slot, value) ∈ blockPairs (slots.get block) values ↔
      ∃ place, (place, value) ∈ (blocks.coordinates block).zip values ∧
        layout.slot? pattern block place = some slot := by
  rw [blockPairs, indexes.block, List.zip_map_left, List.filterMap_map,
    List.mem_filterMap]
  constructor
  · rintro ⟨⟨place, value'⟩, member, made⟩
    obtain ⟨slot', slotted, same⟩ := Option.map_eq_some_iff.mp made
    cases same
    exact ⟨place, member, slotted⟩
  · rintro ⟨place, member, slotted⟩
    exact ⟨(place, value), member,
      Option.map_eq_some_iff.mpr ⟨slot, slotted, rfl⟩⟩

theorem exists_site (indexes : slots.Indexes pattern layout blocks)
    (wellFormed : pattern.WellFormed) (initial : blocks.WellFormed)
    (shaped : blocks.Shaped layout) {value : α}
    (member : (slot, value) ∈ blockPairs (slots.get block) values) :
    ∃ i j row col, pattern.entries[slot]? = some (row, col) ∧
      layout.site row col = .block block i j ∧
      ((i, j), value) ∈ (blocks.coordinates block).zip values := by
  obtain ⟨⟨i, j⟩, stored, slotted⟩ := indexes.mem_blockPairs.mp member
  obtain ⟨⟨row, col⟩, placed, slotted⟩ := Option.bind_eq_some_iff.mp slotted
  have inside := initial.coordinates_inside shaped (List.of_mem_zip stored).1
  have upper := (Layout.position_upper inside placed).1
  exact ⟨i, j, row, col, wellFormed.entry_of_slot? upper slotted,
    Layout.site_of_position inside placed, stored⟩

theorem mem_slots (indexes : slots.Indexes pattern layout blocks)
    (wellFormed : pattern.WellFormed)
    (length : (blocks.coordinates block).length = values.length)
    (found : pattern.entries[slot]? = some (row, col))
    (site : layout.site row col = .block block i j)
    (stored : (i, j) ∈ blocks.coordinates block) :
    slot ∈ (blockPairs (slots.get block) values).map Prod.fst := by
  obtain ⟨k, here⟩ := List.mem_iff_getElem?.mp stored
  have inside := (List.getElem?_eq_some_iff.mp here).1
  have valued : values[k]? = some values[k] :=
    List.getElem?_eq_getElem (length ▸ inside)
  refine List.mem_map.mpr ⟨(slot, values[k]), ?_, rfl⟩
  refine indexes.mem_blockPairs.mpr ⟨(i, j), ?_, ?_⟩
  · exact List.mem_of_getElem? (List.getElem?_zip_eq_some.mpr ⟨here, valued⟩)
  · rw [Layout.slot?, Layout.position_of_site site]
    exact wellFormed.slot?_of_entry found

theorem mem_slack_iff (indexes : slots.Indexes pattern layout blocks)
    (wellFormed : pattern.WellFormed) : slot ∈ slots.slack ↔
      ∃ row col, pattern.entries[slot]? = some (row, col) ∧
        layout.site row col = .identity := by
  rw [← List.mem_map_of_injective (Option.some_injective _), indexes.slack,
    List.mem_map]
  constructor
  · rintro ⟨⟨row, col⟩, member, slotted⟩
    obtain ⟨i, _, same⟩ := List.mem_map.mp member
    have upper : row ≤ col := by
      cases same
      simp only [Layout.slackStart, Layout.inequalityStart]
      omega
    exact ⟨row, col, wellFormed.entry_of_slot? upper slotted,
      Layout.site_eq_identity_iff.mpr member⟩
  · rintro ⟨row, col, found, site⟩
    exact ⟨(row, col), Layout.site_eq_identity_iff.mp site,
      wellFormed.slot?_of_entry found⟩

theorem length_slack (indexes : slots.Indexes pattern layout blocks) :
    slots.slack.length = layout.inequalities := by
  rw [← List.length_map some, indexes.slack, List.length_map,
    Layout.slackPositions, List.length_map, List.length_range]

theorem length_barrier (indexes : slots.Indexes pattern layout blocks) :
    slots.barrier.length = layout.inequalities := by
  rw [indexes.barrier, List.length_map, List.length_range]

theorem barrier_getElem?_iff (indexes : slots.Indexes pattern layout blocks)
    (wellFormed : pattern.WellFormed) (size_eq : pattern.size = layout.size) :
    slots.barrier[i]? = some slot ↔
      ∃ row col, pattern.entries[slot]? = some (row, col) ∧
        layout.site row col = .barrier i := by
  have diagonal (inside : i < layout.inequalities) :
      pattern.entries[pattern.diagonalSlot (layout.slackStart + i)]? =
        some (layout.slackStart + i, layout.slackStart + i) := by
    refine wellFormed.entry_diagonalSlot ?_
    rw [size_eq, Layout.size, Layout.slackStart]
    omega
  rw [indexes.barrier, List.getElem?_map, Option.map_eq_some_iff]
  constructor
  · rintro ⟨i', listed, rfl⟩
    obtain ⟨inside, same⟩ := List.getElem?_eq_some_iff.mp listed
    rw [List.getElem_range] at same
    rw [List.length_range] at inside
    subst same
    exact ⟨_, _, diagonal inside,
      Layout.site_eq_barrier_iff.mpr ⟨inside, rfl, rfl⟩⟩
  · rintro ⟨row, col, found, site⟩
    obtain ⟨inside, rfl, rfl⟩ := Layout.site_eq_barrier_iff.mp site
    refine ⟨i, List.getElem?_range inside, ?_⟩
    have slotted := wellFormed.slot?_of_entry (diagonal inside)
    exact Option.some.inj
      (slotted.symm.trans (wellFormed.slot?_of_entry found))

end SlotMap.Indexes

theorem slotOf_eq_ok (slotted : pattern.slot? row col = some slot) :
    slotOf (α := α) pattern row col = .ok slot := by
  rw [slotOf, slotted]

theorem blockSlots_runs
    (slotted : ∀ place ∈ blocks.coordinates block, ∀ row col,
      layout.position block place.1 place.2 = some (row, col) →
        ∃ slot, pattern.slot? row col = some slot) :
    blockSlots pattern layout blocks block =
      .ok ((blocks.coordinates block).map (layout.slot? pattern block)) := by
  rw [blockSlots, Blocks.positions_eq]
  refine (@Checked.mapM_runs _ _ _ _ (fun place? : Option (Nat × Nat) =>
    place?.bind fun (row, col) => pattern.slot? row col) _ ?_).trans ?_
  · rintro place? member
    obtain ⟨⟨i, j⟩, stored, rfl⟩ := List.mem_map.mp member
    dsimp only
    cases placed : layout.position block i j with
    | none => rfl
    | some place =>
        obtain ⟨slot, found⟩ := slotted (i, j) stored _ _ placed
        dsimp only [Option.bind_some]
        rw [slotOf_eq_ok found, found]
        rfl
  · rw [List.map_map]
    rfl

theorem SlotMap.make_runs
    (slotted : ∀ row col, (row, col) ∈ layout.allPositions blocks →
      ∃ slot, pattern.slot? row col = some slot) :
    ∃ slots, SlotMap.make pattern layout blocks = .ok slots ∧
      slots.Indexes pattern layout blocks := by
  have each (block : Block) : blockSlots pattern layout blocks block =
      .ok ((blocks.coordinates block).map (layout.slot? pattern block)) := by
    refine blockSlots_runs fun (i, j) stored row col placed => ?_
    exact slotted row col
      (Blocks.mem_allPositions.mpr (.inl ⟨block, i, j, stored, placed⟩))
  have slack (row col : Nat) (member : (row, col) ∈ layout.slackPositions) :
      ∃ slot, pattern.slot? row col = some slot :=
    slotted row col (Blocks.mem_allPositions.mpr (.inr member))
  have ran : (layout.slackPositions.mapM fun (row, col) =>
      slotOf (α := α) pattern row col) = .ok (layout.slackPositions.map
        fun (row, col) => (pattern.slot? row col).getD 0) := by
    refine Checked.mapM_runs fun (row, col) member => ?_
    obtain ⟨slot, found⟩ := slack row col member
    dsimp only
    rw [slotOf_eq_ok found, found]
    rfl
  refine ⟨_, by rw [SlotMap.make, each, Checked.ok_bind, each, Checked.ok_bind,
    each, Checked.ok_bind, ran, Checked.ok_bind]; rfl, ?_, ?_, rfl⟩
  · intro block
    cases block <;> rfl
  · rw [List.map_map]
    refine List.map_congr_left fun (row, col) member => ?_
    obtain ⟨slot, found⟩ := slack row col member
    dsimp only [Function.comp_apply]
    rw [found]
    rfl

end QuasiDefinite
