import Mathlib.Data.List.Induction
import QuasiDefinite.Proofs.Exact.Field
import QuasiDefinite.Proofs.NewtonSystem.Slots

namespace QuasiDefinite

variable {α : Type}

namespace NewtonSystem

variable {system next : NewtonSystem α} {block : Block} {matrix : Sparse α}

/-! What an update does. -/

def writeBarrier (system : NewtonSystem α) (diagonal : Array α) :
    NewtonSystem α :=
  { system with
    values := writeSlots system.slots.barrier diagonal.toList system.values }

/-- The system with another block, if it has one to replace. -/
def replaced (system : NewtonSystem α) (block : Block) (matrix : Sparse α) :
    NewtonSystem α :=
  if (system.blocks.get block).isSome then
    { system with
      revision := system.revision + 1
      blocks := system.blocks.set block matrix
      values := writeBlock (system.slots.get block) (some matrix)
        system.values }
  else { system with revision := system.revision + 1 }

theorem coordinates_of_fits {blocks : Blocks α}
    (suits : fits (blocks.get block) matrix = true) :
    matrix.coordinates = blocks.coordinates block := by
  rw [Blocks.coordinates]
  cases found : blocks.get block with
  | some old =>
      rw [found] at suits
      exact (Sparse.coordinates_of_sameStructure suits).symm
  | none =>
      rw [found] at suits
      exact Sparse.coordinates_of_entryCount (beq_iff_eq.mp suits)

end NewtonSystem

variable [Scalar α]

inductive Update (α : Type) where
  | barrier (s z : Array α)
  | diagonal (values : Array α)
  | replace (block : Block) (matrix : Sparse α)

namespace Update

def apply (system : NewtonSystem α) :
    Update α → Reply α (NewtonSystem α) Unit
  | barrier s z => system.updateBarrier s z
  | diagonal values => system.setBarrier values
  | replace block matrix => system.replace block matrix

def isReplace : Update α → Bool
  | barrier .. | diagonal _ => false
  | replace .. => true

/-- Does the update suit a system assembled from the blocks? -/
def suits (layout : Layout) (blocks : Blocks α) : Update α → Bool
  | barrier s z =>
      s.size == layout.inequalities && z.size == layout.inequalities
  | diagonal values => values.size == layout.inequalities
  | replace block matrix =>
      (matrix.rows, matrix.cols) == layout.shape block &&
        NewtonSystem.fits (blocks.get block) matrix

/-- What is looked at before anything is written. -/
def check (system : NewtonSystem α) : Update α → Except (Error α) Unit
  | barrier s z => do
      checkLength .barrierSlacks system.layout.inequalities s.size
      checkLength .barrierMultipliers system.layout.inequalities z.size
  | diagonal values =>
      checkLength .barrierDiagonal system.layout.inequalities values.size
  | replace block matrix => do
      checkShape system.layout block (some matrix)
      if ! NewtonSystem.fits (system.blocks.get block) matrix then
        throw (.configuration (.structureChanged block))

def written (system : NewtonSystem α) : Update α → NewtonSystem α
  | barrier s z =>
      system.writeBarrier (Array.zipWith (fun si zi => zi / si) s z)
  | diagonal values => system.writeBarrier values
  | replace block matrix => system.replaced block matrix

variable {system : NewtonSystem α} {update : Update α}

theorem apply_of_error {error : Error α}
    (refused : update.check system = .error error) :
    update.apply system = .refuse system error := by
  cases update with
  | barrier s z =>
      rw [check] at refused
      rw [apply, NewtonSystem.updateBarrier, refused]
  | diagonal values =>
      rw [check] at refused
      rw [apply, NewtonSystem.setBarrier, refused]
  | replace block matrix =>
      rw [check] at refused
      rw [apply, NewtonSystem.replace]
      cases shaped : checkShape system.layout block (some matrix) with
      | error other =>
          rw [shaped] at refused
          cases refused
          rfl
      | ok _ =>
          rw [shaped, Checked.ok_bind] at refused
          cases suits : NewtonSystem.fits (system.blocks.get block) matrix with
          | true =>
              rw [suits] at refused
              cases refused
          | false =>
              rw [suits] at refused
              cases refused
              rfl

theorem apply_of_ok (passed : update.check system = .ok ()) :
    update.apply system = .answer (update.written system) () := by
  cases update with
  | barrier s z =>
      rw [check] at passed
      rw [apply, NewtonSystem.updateBarrier, passed, written,
        NewtonSystem.writeBarrier, Array.toList_zipWith]
  | diagonal values =>
      rw [check] at passed
      rw [apply, NewtonSystem.setBarrier, passed]
      rfl
  | replace block matrix =>
      rw [check] at passed
      rw [apply, NewtonSystem.replace]
      cases shaped : checkShape system.layout block (some matrix) with
      | error other =>
          rw [shaped] at passed
          cases passed
      | ok _ =>
          rw [shaped, Checked.ok_bind] at passed
          cases suits : NewtonSystem.fits (system.blocks.get block) matrix with
          | false =>
              rw [suits] at passed
              cases passed
          | true =>
              rw [written, NewtonSystem.replaced]
              cases (system.blocks.get block).isSome <;> rfl

theorem result_apply (update : Update α) :
    (update.apply system).result = update.check system := by
  cases checked : update.check system with
  | error error => rw [apply_of_error checked]; rfl
  | ok _ => rw [apply_of_ok checked]; rfl

omit [Scalar α] in
theorem check_eq_ok_iff : update.check system = .ok () ↔
    update.suits system.layout system.blocks = true := by
  cases update with
  | barrier s z =>
      rw [check, suits, Bool.and_eq_true, beq_iff_eq, beq_iff_eq,
        Checked.check_bind_eq_ok_iff, checkLength_eq_ok_iff,
        checkLength_eq_ok_iff]
      exact and_congr eq_comm eq_comm
  | diagonal values =>
      rw [check, suits, beq_iff_eq, checkLength_eq_ok_iff]
      exact eq_comm
  | replace block matrix =>
      rw [check, suits, Bool.and_eq_true, beq_iff_eq,
        Checked.check_bind_eq_ok_iff, checkShape_eq_ok_iff]
      refine and_congr ?_ ?_
      · simp only [Option.some.injEq, forall_eq']
      · cases NewtonSystem.fits (system.blocks.get block) matrix with
        | false => exact iff_of_false nofun nofun
        | true => exact iff_of_true rfl rfl

end Update

namespace Data

def take (data : Data α) : Update α → Data α
  | .barrier s z =>
      { data with barrier := Array.zipWith (fun si zi => zi / si) s z }
  | .diagonal values => { data with barrier := values }
  | .replace block matrix =>
      { data with blocks := data.blocks.set block matrix }

/-- The data that a system starts with: the barrier diagonal is the identity. -/
def initial (layout : Layout) (blocks : Blocks α) : Data α :=
  ⟨blocks, .replicate layout.inequalities 1⟩

/-- The data after the updates that were accepted, the latest of each kind. -/
def latest (layout : Layout) (blocks : Blocks α)
    (accepted : List (Update α)) : Data α :=
  accepted.foldl take (initial layout blocks)

end Data

namespace NewtonSystem

/-- The system after an update that it may reject, with the log of the updates
that it accepted. -/
def afterUpdate (state : NewtonSystem α × List (Update α))
    (update : Update α) : NewtonSystem α × List (Update α) :=
  let reply := update.apply state.1
  (reply.state,
    if reply.result.isOk then state.2 ++ [update] else state.2)

def afterUpdates (system : NewtonSystem α) (updates : List (Update α)) :
    NewtonSystem α × List (Update α) :=
  updates.foldl afterUpdate (system, [])

/-- A system that was assembled from the blocks shows the data. -/
structure Tracks (system : NewtonSystem α) (blocks : Blocks α)
    (data : Data α) : Prop where
  shaped : blocks.Shaped system.layout
  constructed : system.pattern.Constructed
  size_pattern : system.pattern.size = system.layout.size
  mem_entries : ∀ {row col}, (row, col) ∈ system.pattern.entries ↔
    (row, col) ∈ system.layout.allPositions blocks ∨
      row = col ∧ col < system.layout.size
  indexes : system.slots.Indexes system.pattern system.layout blocks
  /-- What may replace a block is settled by the block assembled first. -/
  fits_eq : ∀ block matrix,
    fits (system.blocks.get block) matrix = fits (blocks.get block) matrix
  coordinates : ∀ block,
    data.blocks.coordinates block = blocks.coordinates block
  size_barrier : data.barrier.size = system.layout.inequalities
  shows : system.pattern.Shows system.values (data.entry system.layout)

variable {system next : NewtonSystem α} {blocks : Blocks α} {data : Data α}
  {layout : Layout} {block : Block} {matrix : Sparse α} {update : Update α}

namespace Tracks

theorem wellFormed (tracks : system.Tracks blocks data) :
    system.pattern.WellFormed :=
  Pattern.wellFormed_of_constructed tracks.constructed

theorem check_eq_ok_iff (tracks : system.Tracks blocks data) :
    update.check system = .ok () ↔
      update.suits system.layout blocks = true := by
  rw [Update.check_eq_ok_iff]
  cases update with
  | barrier s z => rfl
  | diagonal values => rfl
  | replace block matrix => rw [Update.suits, tracks.fits_eq, Update.suits]

theorem apply_of_suits (tracks : system.Tracks blocks data)
    (suits : update.suits system.layout blocks = true) :
    update.apply system = .answer (update.written system) () :=
  Update.apply_of_ok (tracks.check_eq_ok_iff.mpr suits)

/-- An update that is rejected leaves the system as it was. -/
theorem apply_of_misfit (tracks : system.Tracks blocks data)
    (misfit : update.suits system.layout blocks = false) :
    ∃ error, update.apply system = .refuse system error := by
  cases checked : update.check system with
  | error error => exact ⟨error, Update.apply_of_error checked⟩
  | ok _ =>
      rw [tracks.check_eq_ok_iff.mp checked] at misfit
      cases misfit

theorem writeBarrier (tracks : system.Tracks blocks data) {new : Array α}
    (size_new : new.size = system.layout.inequalities) :
    (system.writeBarrier new).Tracks blocks { data with barrier := new } := by
  have slots {i slot : Nat} : system.slots.barrier[i]? = some slot ↔ _ :=
    tracks.indexes.barrier_getElem?_iff tracks.wellFormed tracks.size_pattern
  refine { tracks with
    size_barrier := size_new
    shows := tracks.shows.written tracks.wellFormed ?_ ?_ }
  · intro slot value member
    obtain ⟨i, here⟩ := List.mem_iff_getElem?.mp member
    obtain ⟨listed, valued⟩ := List.getElem?_zip_eq_some.mp here
    obtain ⟨row, col, found, site⟩ := slots.mp listed
    refine ⟨row, col, found, (Data.entry_of_barrier site).trans ?_⟩
    rw [Array.getElem?_toList] at valued
    exact getD_of_getElem? valued
  · intro slot row col found missing
    refine Data.entry_set_barrier new fun i site => missing ?_
    rw [List.map_fst_zip (by
      rw [tracks.indexes.length_barrier, Array.length_toList, size_new])]
    exact List.mem_of_getElem? (slots.mpr ⟨row, col, found, site⟩)

theorem coordinates_set (tracks : system.Tracks blocks data)
    (suits : fits (system.blocks.get block) matrix = true) (other : Block) :
    (data.blocks.set block matrix).coordinates other =
      blocks.coordinates other := by
  by_cases same : other = block
  · subst same
    rw [Blocks.coordinates, Blocks.get_set]
    exact coordinates_of_fits (tracks.fits_eq other matrix ▸ suits)
  · rw [Blocks.coordinates, Blocks.get_set_of_ne same]
    exact tracks.coordinates other

theorem shows_set (tracks : system.Tracks blocks data)
    (wellFormed : blocks.WellFormed)
    (suits : fits (system.blocks.get block) matrix = true) :
    system.pattern.Shows
      (written (blockPairs (system.slots.get block) matrix.values)
        system.values)
      ({ data with blocks := data.blocks.set block matrix }.entry
        system.layout) := by
  have latest := tracks.coordinates_set suits
  have coordinates : matrix.coordinates = blocks.coordinates block :=
    coordinates_of_fits (tracks.fits_eq block matrix ▸ suits)
  refine tracks.shows.written tracks.wellFormed ?_ ?_
  · intro slot value member
    obtain ⟨i, j, row, col, found, site, stored⟩ :=
      tracks.indexes.exists_site tracks.wellFormed wellFormed tracks.shaped
        member
    refine ⟨row, col, found, (Data.entry_of_block site).trans ?_⟩
    refine Blocks.entry_eq ?_ ?_
    · rw [latest]
      exact wellFormed.nodup_coordinates block
    · rw [latest, Blocks.values, Blocks.get_set]
      exact stored
  · intro slot row col found missing
    by_cases here : ∃ i j, system.layout.site row col = .block block i j
    · obtain ⟨i, j, site⟩ := here
      have absent : (i, j) ∉ blocks.coordinates block := fun stored =>
        missing (tracks.indexes.mem_slots tracks.wellFormed
          (by rw [← coordinates, Sparse.length_coordinates]) found site
          stored)
      rw [Data.entry_of_block site, Data.entry_of_block site,
        Blocks.entry_eq_zero (by rwa [latest]),
        Blocks.entry_eq_zero (by rwa [tracks.coordinates])]
    · exact Data.entry_set_block matrix fun i j site => here ⟨i, j, site⟩

theorem replaced (tracks : system.Tracks blocks data)
    (wellFormed : blocks.WellFormed)
    (suits : fits (system.blocks.get block) matrix = true) :
    (system.replaced block matrix).Tracks blocks
      { data with blocks := data.blocks.set block matrix } := by
  have latest := tracks.coordinates_set suits
  have shows' := tracks.shows_set wellFormed suits
  rw [NewtonSystem.replaced]
  split
  · next present =>
    refine { tracks with
      fits_eq := fun other new => ?_
      coordinates := latest
      shows := (writeBlock_eq ..) ▸ shows' }
    rw [← tracks.fits_eq]
    by_cases same : other = block
    · subst same
      obtain ⟨old, found⟩ := Option.isSome_iff_exists.mp present
      rw [found] at suits
      rw [Blocks.get_set, found]
      exact Sparse.sameStructure_congr suits
    · rw [Blocks.get_set_of_ne same]
  · next absent =>
    have none : system.blocks.get block = none := by simpa using absent
    have coordinates : matrix.coordinates = blocks.coordinates block :=
      coordinates_of_fits (tracks.fits_eq block matrix ▸ suits)
    rw [none] at suits
    have empty : system.slots.get block = [] := by
      rw [tracks.indexes.block, ← coordinates,
        Sparse.coordinates_of_entryCount (beq_iff_eq.mp suits), List.map_nil]
    rw [empty] at shows'
    exact { tracks with coordinates := latest, shows := shows' }

theorem written (tracks : system.Tracks blocks data)
    (wellFormed : blocks.WellFormed)
    (suits : update.suits system.layout blocks = true) :
    (update.written system).Tracks blocks (data.take update) ∧
      (update.written system).layout = system.layout ∧
      (update.written system).pattern = system.pattern ∧
      (update.written system).revision =
        system.revision + if update.isReplace then 1 else 0 := by
  cases update with
  | barrier s z =>
      rw [Update.suits, Bool.and_eq_true, beq_iff_eq, beq_iff_eq] at suits
      refine ⟨tracks.writeBarrier ?_, rfl, rfl, rfl⟩
      rw [Array.size_zipWith, suits.1, suits.2, Nat.min_self]
  | diagonal values =>
      exact ⟨tracks.writeBarrier (beq_iff_eq.mp suits), rfl, rfl, rfl⟩
  | replace block matrix =>
      rw [Update.suits, Bool.and_eq_true, ← tracks.fits_eq] at suits
      refine ⟨tracks.replaced wellFormed suits.2, ?_⟩
      rw [Update.written, NewtonSystem.replaced]
      split <;> exact ⟨rfl, rfl, rfl⟩

theorem mem_of_entry_ne_zero (tracks : system.Tracks blocks data)
    {row col : Nat} (nonzero : data.entry system.layout row col ≠ 0) :
    (row, col) ∈ system.pattern.entries := by
  rw [tracks.mem_entries]
  cases site : system.layout.site row col with
  | block block i j =>
      rw [Data.entry_of_block site] at nonzero
      have stored : (i, j) ∈ blocks.coordinates block := by
        rw [← tracks.coordinates]
        exact Decidable.not_not.mp fun missing =>
          nonzero (Blocks.entry_eq_zero missing)
      exact .inl (Blocks.mem_allPositions.mpr
        (.inl ⟨block, i, j, stored, Layout.position_of_site site⟩))
  | barrier i =>
      obtain ⟨inside, rfl, rfl⟩ := Layout.site_eq_barrier_iff.mp site
      refine .inr ⟨rfl, ?_⟩
      rw [Layout.slackStart, Layout.size]
      omega
  | identity =>
      exact .inl (Blocks.mem_allPositions.mpr
        (.inr (Layout.site_eq_identity_iff.mp site)))
  | empty => exact absurd (by rw [Data.entry, site]) nonzero

end Tracks

theorem shaped_of_assemble {made : NewtonSystem α × List (Event α)}
    (ran : assemble layout blocks = .ok made) : blocks.Shaped layout := by
  rw [assemble, Checked.bind_eq_ok_iff] at ran
  obtain ⟨⟨⟩, passed, _⟩ := ran
  intro block matrix found
  exact checkShape_eq_ok_iff.mp
    (Checked.forM_eq_ok passed block block.mem_all) matrix found

def initialPairs (slots : SlotMap) (layout : Layout) (blocks : Blocks α) :
    List (Nat × α) :=
  [Block.cost, .equality, .inequality].flatMap
      (fun block => blockPairs (slots.get block) (blocks.values block)) ++
    slots.slack.zip (List.replicate layout.inequalities 1) ++
    slots.barrier.zip (List.replicate layout.inequalities 1)

theorem mem_initialPairs {slots : SlotMap} {slot : Nat} {value : α} :
    (slot, value) ∈ initialPairs slots layout blocks ↔
      ((∃ block, (slot, value) ∈
          blockPairs (slots.get block) (blocks.values block)) ∨
        (slot, value) ∈
          slots.slack.zip (List.replicate layout.inequalities 1)) ∨
      (slot, value) ∈
        slots.barrier.zip (List.replicate layout.inequalities 1) := by
  simp only [initialPairs, List.mem_append, List.mem_flatMap, Block.mem_all,
    true_and]

theorem written_initialPairs {slots : SlotMap} {values : Array α} :
    written (initialPairs slots layout blocks) values =
      writeSlots slots.barrier (List.replicate layout.inequalities 1)
        (writeSlots slots.slack (List.replicate layout.inequalities 1)
          ([Block.cost, .equality, .inequality].foldl
            (fun values block =>
              writeBlock (slots.get block) (blocks.get block) values)
            values)) := by
  rw [initialPairs, written_append, written_append, List.flatMap_cons,
    List.flatMap_cons, List.flatMap_cons, List.flatMap_nil, List.append_nil,
    written_append, written_append]
  simp only [List.foldl_cons, List.foldl_nil, writeBlock_eq]
  rfl

theorem shows_initial {pattern : Pattern} {slots : SlotMap}
    (wellFormed : blocks.WellFormed) (shaped : blocks.Shaped layout)
    (regular : pattern.WellFormed) (size_eq : pattern.size = layout.size)
    (indexes : slots.Indexes pattern layout blocks) :
    pattern.Shows
      (written (initialPairs slots layout blocks)
        (.replicate pattern.slotCount 0))
      ((Data.initial layout blocks).entry layout) := by
  have zero : pattern.Shows (.replicate pattern.slotCount 0)
      fun _ _ => (0 : α) := by
    refine ⟨Array.size_replicate, fun slot row col found => ?_⟩
    have inside := (List.getElem?_eq_some_iff.mp found).1
    rw [regular.length_entries] at inside
    rw [Array.getElem?_replicate, if_pos inside]
  refine zero.written regular ?_ ?_
  · intro slot value member
    rcases mem_initialPairs.mp member with (⟨block, member⟩ | slack) | barrier
    · obtain ⟨i, j, row, col, found, site, stored⟩ :=
        indexes.exists_site regular wellFormed shaped member
      exact ⟨row, col, found, (Data.entry_of_block site).trans
        (Blocks.entry_eq (wellFormed.nodup_coordinates block) stored)⟩
    · obtain ⟨listed, one⟩ := List.of_mem_zip slack
      obtain ⟨row, col, found, site⟩ :=
        (indexes.mem_slack_iff regular).mp listed
      refine ⟨row, col, found, ?_⟩
      rw [Data.entry, site, List.eq_of_mem_replicate one]
    · obtain ⟨i, here⟩ := List.mem_iff_getElem?.mp barrier
      obtain ⟨listed, one⟩ := List.getElem?_zip_eq_some.mp here
      obtain ⟨row, col, found, site⟩ :=
        (indexes.barrier_getElem?_iff regular size_eq).mp listed
      refine ⟨row, col, found, (Data.entry_of_barrier site).trans ?_⟩
      rw [Data.initial, Array.getD_eq_getD_getElem?, ← Array.getElem?_toList,
        Array.toList_replicate, one]
      rfl
  · intro slot row col found missing
    simp only [initialPairs, List.map_append, List.mem_append, not_or,
      List.map_flatMap, List.mem_flatMap, Block.mem_all, true_and, not_exists,
      List.map_fst_zip, indexes.length_slack, indexes.length_barrier,
      List.length_replicate, Nat.le_refl] at missing
    obtain ⟨⟨notBlock, notSlack⟩, notBarrier⟩ := missing
    cases site : layout.site row col with
    | block block i j =>
        rw [Data.entry_of_block site]
        exact Blocks.entry_eq_zero fun stored => notBlock block
          (indexes.mem_slots regular Blocks.length_coordinates found site
            stored)
    | barrier i =>
        exact absurd (List.mem_of_getElem?
          ((indexes.barrier_getElem?_iff regular size_eq).mpr
            ⟨row, col, found, site⟩)) notBarrier
    | identity =>
        exact absurd ((indexes.mem_slack_iff regular).mpr
          ⟨row, col, found, site⟩) notSlack
    | empty => rw [Data.entry, site]

theorem assemble_runs (wellFormed : blocks.WellFormed)
    (shaped : blocks.Shaped layout) : ∃ system events,
    assemble layout blocks = .ok (system, events) ∧
      system.Tracks blocks (.initial layout blocks) ∧
      system.layout = layout ∧ system.revision = 0 := by
  have passed : [Block.cost, .equality, .inequality].forM (fun block =>
      checkShape layout block (blocks.get block)) = .ok () :=
    Checked.forM_runs fun block _ =>
      checkShape_eq_ok_iff.mpr (shaped block)
  obtain ⟨pattern, built, size_pattern, mem_entries⟩ :=
    Pattern.ofUpperEntries_runs fun (row, col) member =>
      Blocks.allPositions_upper wellFormed shaped member
  have regular := Pattern.wellFormed_ofUpperEntries built
  obtain ⟨slots, made, indexes⟩ := SlotMap.make_runs fun row col member => by
    obtain ⟨slot, found⟩ := List.mem_iff_getElem?.mp
      ((mem_entries row col).mpr (.inl member))
    exact ⟨slot, regular.slot?_of_entry found⟩
  let values := written (initialPairs slots layout blocks)
    (.replicate pattern.slotCount 0)
  refine ⟨⟨layout, pattern, slots, values, blocks, 0⟩,
    [.assembled layout pattern.slotCount], ?_, ?_, rfl, rfl⟩
  · rw [assemble, passed, Checked.ok_bind, built, Except.mapError,
      Checked.ok_bind, made, Checked.ok_bind]
    simp only [values, written_initialPairs]
    rfl
  · exact
      { shaped, constructed := .upper built, size_pattern, indexes
        mem_entries := mem_entries _ _
        fits_eq := fun _ _ => rfl
        coordinates := fun _ => rfl
        size_barrier := Array.size_replicate
        shows := shows_initial wellFormed shaped regular size_pattern indexes }

theorem afterUpdates_concat (updates : List (Update α)) (update : Update α) :
    system.afterUpdates (updates ++ [update]) =
      afterUpdate (system.afterUpdates updates) update := by
  rw [afterUpdates, List.foldl_append]
  rfl

/-- A system and the log of what it accepted, after updates. -/
structure Follows (system : NewtonSystem α) (blocks : Blocks α)
    (updates : List (Update α)) (state : NewtonSystem α × List (Update α)) :
    Prop where
  tracks : state.1.Tracks blocks (.latest system.layout blocks state.2)
  layout_eq : state.1.layout = system.layout
  pattern_eq : state.1.pattern = system.pattern
  revision_eq : state.1.revision = state.2.countP Update.isReplace
  accepted_eq : state.2 = updates.filter (Update.suits system.layout blocks)
  /-- The updates that were rejected may as well be left out. -/
  replays : system.afterUpdates state.2 = state

theorem Follows.afterUpdate {updates : List (Update α)}
    {state : NewtonSystem α × List (Update α)}
    (follows : system.Follows blocks updates state)
    (wellFormed : blocks.WellFormed) (update : Update α) :
    system.Follows blocks (updates ++ [update])
      (afterUpdate state update) := by
  cases suits : update.suits system.layout blocks with
  | true =>
      have suits' : update.suits state.1.layout blocks = true := by
        rwa [follows.layout_eq]
      have ran := follows.tracks.apply_of_suits suits'
      have after : NewtonSystem.afterUpdate state update =
          (update.written state.1, state.2 ++ [update]) := by
        rw [NewtonSystem.afterUpdate, ran]
        rfl
      obtain ⟨tracks, layout_eq, pattern_eq, revision_eq⟩ :=
        follows.tracks.written wellFormed suits'
      rw [after]
      refine
        { tracks := ?_
          layout_eq := layout_eq.trans follows.layout_eq
          pattern_eq := pattern_eq.trans follows.pattern_eq
          revision_eq := ?_, accepted_eq := ?_, replays := ?_ }
      · rw [Data.latest, List.foldl_append]
        exact tracks
      · rw [revision_eq, follows.revision_eq, List.countP_append,
          List.countP_singleton]
      · rw [List.filter_append, ← follows.accepted_eq,
          List.filter_cons_of_pos suits, List.filter_nil]
      · rw [afterUpdates_concat, follows.replays, after]
  | false =>
      have misfit : update.suits state.1.layout blocks = false := by
        rwa [follows.layout_eq]
      obtain ⟨error, ran⟩ := follows.tracks.apply_of_misfit misfit
      have after : NewtonSystem.afterUpdate state update = state := by
        rw [NewtonSystem.afterUpdate, ran]
        rfl
      have rejected : ¬ update.suits system.layout blocks = true := by
        simp [suits]
      rw [after]
      refine { follows with accepted_eq := ?_ }
      rw [List.filter_append, List.filter_cons_of_neg rejected,
        List.filter_nil, List.append_nil]
      exact follows.accepted_eq

theorem follows_afterUpdates (wellFormed : blocks.WellFormed)
    (tracks : system.Tracks blocks (.initial system.layout blocks))
    (fresh : system.revision = 0) (updates : List (Update α)) :
    system.Follows blocks updates (system.afterUpdates updates) := by
  induction updates using List.reverseRecOn with
  | nil => exact ⟨tracks, rfl, rfl, fresh, rfl, rfl⟩
  | append_singleton updates update ih =>
      rw [afterUpdates_concat]
      exact ih.afterUpdate wellFormed update

theorem follows_of_assemble {events : List (Event α)}
    (wellFormed : blocks.WellFormed)
    (ran : assemble layout blocks = .ok (system, events))
    (updates : List (Update α)) : system.layout = layout ∧
      system.Follows blocks updates (system.afterUpdates updates) := by
  obtain ⟨made, _, ran', tracks, rfl, fresh⟩ :=
    assemble_runs wellFormed (shaped_of_assemble ran)
  cases ran.symm.trans ran'
  exact ⟨rfl, follows_afterUpdates wellFormed tracks fresh updates⟩

/-- What is known of a system after updates, and of the log of those that it
accepted. -/
structure Stands (system : NewtonSystem α) (layout : Layout)
    (blocks : Blocks α) (updates : List (Update α))
    (state : NewtonSystem α × List (Update α)) : Prop where
  pattern_eq : state.1.pattern = system.pattern
  signs_eq : state.1.signs = system.signs
  shows : state.1.pattern.Shows state.1.values
    ((Data.latest layout blocks state.2).entry layout)
  covers : ∀ row col,
    (Data.latest layout blocks state.2).entry layout row col ≠ 0 →
      (row, col) ∈ state.1.pattern.entries
  revision_eq : state.1.revision = state.2.countP Update.isReplace
  accepted_eq : state.2 = updates.filter (Update.suits layout blocks)
  replays : system.afterUpdates state.2 = state
  accepts : ∀ update : Update α, update.suits layout blocks = true →
    (update.apply state.1).result = .ok ()
  rejects : ∀ update : Update α, update.suits layout blocks = false →
    ∃ error, update.apply state.1 = .refuse state.1 error

/-- A system can be assembled from blocks of the right shapes and from no
others. After any updates it shows the latest data that it accepted. It rejects
the updates that do not suit the blocks that it was assembled from, and then it
stays as it is. -/
theorem assemble_updates (layout : Layout) (blocks : Blocks α)
    (wellFormed : blocks.WellFormed) :
    ((∃ made, assemble layout blocks = .ok made) ↔ blocks.Shaped layout) ∧
      ∀ system events, assemble layout blocks = .ok (system, events) →
        ∀ updates, system.Stands layout blocks updates
          (system.afterUpdates updates) := by
  constructor
  · constructor
    · rintro ⟨made, ran⟩
      exact shaped_of_assemble ran
    · intro shaped
      obtain ⟨system, events, ran, _⟩ := assemble_runs wellFormed shaped
      exact ⟨(system, events), ran⟩
  · intro system events ran updates
    obtain ⟨rfl, follows⟩ := follows_of_assemble wellFormed ran updates
    exact
      { pattern_eq := follows.pattern_eq
        signs_eq := congrArg Layout.signs follows.layout_eq
        shows := follows.layout_eq ▸ follows.tracks.shows
        covers := fun row col nonzero => follows.tracks.mem_of_entry_ne_zero
          (follows.layout_eq.symm ▸ nonzero)
        revision_eq := follows.revision_eq
        accepted_eq := follows.accepted_eq
        replays := follows.replays
        accepts := fun update suits => congrArg Reply.result
          (follows.tracks.apply_of_suits (follows.layout_eq ▸ suits))
        rejects := fun update misfit =>
          follows.tracks.apply_of_misfit (follows.layout_eq ▸ misfit) }

/-! A cost with an entry below the diagonal, an equality stored by row, and an
inequality that is absent. The second and the third update are rejected. -/

def sampleCost : Sparse ℚ :=
  ⟨2, 2, .byColumn, #[[(0, 2), (1, 5)], [(0, 1 / 2), (1, 1)]]⟩

def sampleBlocks : Blocks ℚ :=
  ⟨some sampleCost, some ⟨1, 2, .byRow, #[[(0, 1), (1, 1)]]⟩, none⟩

def sampleUpdates : List (Update ℚ) :=
  [.barrier #[1 / 2] #[2],
    .replace .cost ⟨2, 2, .byColumn, #[[(0, 3)], [(1, 4)]]⟩,
    .diagonal #[1, 2],
    .replace .equality ⟨1, 2, .byRow, #[[(0, 5), (1, 6)]]⟩]

theorem wellFormed_sampleBlocks : sampleBlocks.WellFormed := by
  intro block matrix found
  cases block <;> cases found <;> constructor <;> decide

theorem shaped_sampleBlocks : sampleBlocks.Shaped ⟨2, 1, 1⟩ := by
  intro block matrix found
  cases block <;> cases found <;> rfl

theorem assemble_updates_sample :
    sampleBlocks.WellFormed ∧ ∃ system events,
      assemble ⟨2, 1, 1⟩ sampleBlocks = .ok (system, events) ∧
        system.Stands ⟨2, 1, 1⟩ sampleBlocks sampleUpdates
          (system.afterUpdates sampleUpdates) ∧
        (system.afterUpdates sampleUpdates).1.revision = 1 := by
  have law := assemble_updates ⟨2, 1, 1⟩ sampleBlocks wellFormed_sampleBlocks
  obtain ⟨⟨system, events⟩, ran⟩ := law.1.mpr shaped_sampleBlocks
  have stands := law.2 system events ran sampleUpdates
  refine ⟨wellFormed_sampleBlocks, system, events, ran, stands, ?_⟩
  rw [stands.revision_eq, stands.accepted_eq]
  rfl

end NewtonSystem

end QuasiDefinite
