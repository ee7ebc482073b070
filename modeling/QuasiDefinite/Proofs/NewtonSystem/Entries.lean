import QuasiDefinite.NewtonSystem.Assembly
import QuasiDefinite.Proofs.Sparse.Entries

namespace QuasiDefinite

inductive Unknown where
  | x (i : Nat)
  | s (i : Nat)
  | z (i : Nat)
  | y (i : Nat)
  deriving Repr, DecidableEq

inductive Site where
  | block (block : Block) (row col : Nat)
  | barrier (i : Nat)
  | identity
  | empty
  deriving Repr, DecidableEq

namespace Layout

variable {layout : Layout} {index row col i j : Nat}

def unknown (layout : Layout) (index : Nat) : Unknown :=
  if index < layout.slackStart then .x index
  else if index < layout.inequalityStart then .s (index - layout.slackStart)
  else if index < layout.equalityStart then
    .z (index - layout.inequalityStart)
  else .y (index - layout.equalityStart)

/-- The upper triangle of a system:

        x   s   z   y
    x   P   0   Gᵀ  Aᵀ
    s       Σ   I   0
    z           0   0
    y               0

where of `P` the upper triangle counts. -/
def site (layout : Layout) (row col : Nat) : Site :=
  match layout.unknown row, layout.unknown col with
  | .x i, .x j => if i ≤ j then .block .cost i j else .empty
  | .x j, .z i => .block .inequality i j
  | .x j, .y i => .block .equality i j
  | .s i, .s k => if i = k then .barrier i else .empty
  | .s i, .z k => if i = k then .identity else .empty
  | _, _ => .empty

def indexOf (layout : Layout) : Unknown → Nat
  | .x i => i
  | .s i => layout.slackStart + i
  | .z i => layout.inequalityStart + i
  | .y i => layout.equalityStart + i

/-- Is there such an unknown? Nothing bounds the last block. -/
def Has (layout : Layout) : Unknown → Prop
  | .x i => i < layout.primal
  | .s i | .z i => i < layout.inequalities
  | .y _ => True

theorem unknown_eq_iff {unknown : Unknown} : layout.unknown index = unknown ↔
    index = layout.indexOf unknown ∧ layout.Has unknown := by
  rw [Layout.unknown]
  have slack : layout.slackStart = layout.primal := rfl
  have inequality :
      layout.inequalityStart = layout.primal + layout.inequalities := rfl
  have equality :
      layout.equalityStart = layout.primal + 2 * layout.inequalities := rfl
  by_cases x : index < layout.slackStart
  · rw [if_pos x]
    cases unknown <;> simp only [indexOf, Has, Unknown.x.injEq, reduceCtorEq,
      false_iff] <;> omega
  · rw [if_neg x]
    by_cases s : index < layout.inequalityStart
    · rw [if_pos s]
      cases unknown <;> simp only [indexOf, Has, Unknown.s.injEq, reduceCtorEq,
        false_iff] <;> omega
    · rw [if_neg s]
      by_cases z : index < layout.equalityStart
      · rw [if_pos z]
        cases unknown <;> simp only [indexOf, Has, Unknown.z.injEq,
          reduceCtorEq, false_iff] <;> omega
      · rw [if_neg z]
        cases unknown <;> simp only [indexOf, Has, Unknown.y.injEq,
          reduceCtorEq, false_iff, and_true] <;> omega

theorem unknown_eq_x :
    layout.unknown index = .x i ↔ index = i ∧ i < layout.primal :=
  unknown_eq_iff

theorem unknown_eq_s : layout.unknown index = .s i ↔
    index = layout.slackStart + i ∧ i < layout.inequalities :=
  unknown_eq_iff

theorem unknown_eq_z : layout.unknown index = .z i ↔
    index = layout.inequalityStart + i ∧ i < layout.inequalities :=
  unknown_eq_iff

theorem unknown_eq_y :
    layout.unknown index = .y i ↔ index = layout.equalityStart + i :=
  unknown_eq_iff.trans (and_iff_left trivial)

theorem position_of_site {block : Block}
    (site : layout.site row col = .block block i j) :
    layout.position block i j = some (row, col) := by
  rw [Layout.site] at site
  split at site
  · next _ _ xRow xCol =>
    obtain ⟨rfl, _⟩ := unknown_eq_x.mp xRow
    obtain ⟨rfl, _⟩ := unknown_eq_x.mp xCol
    split at site <;> cases site
    next upper => exact if_pos upper
  · next _ _ xRow zCol =>
    obtain ⟨rfl, _⟩ := unknown_eq_x.mp xRow
    obtain ⟨rfl, _⟩ := unknown_eq_z.mp zCol
    cases site
    rfl
  · next _ _ xRow yCol =>
    obtain ⟨rfl, _⟩ := unknown_eq_x.mp xRow
    obtain rfl := unknown_eq_y.mp yCol
    cases site
    rfl
  · split at site <;> cases site
  · split at site <;> cases site
  · cases site

theorem position_upper {block : Block}
    (inside : i < (layout.shape block).1 ∧ j < (layout.shape block).2)
    (placed : layout.position block i j = some (row, col)) :
    row ≤ col ∧ col < layout.size := by
  cases block with
  | cost =>
      rw [position] at placed
      split at placed <;> cases placed
      simp only [shape, size] at *
      omega
  | equality =>
      cases placed
      simp only [shape, size, equalityStart] at *
      omega
  | inequality =>
      cases placed
      simp only [shape, size, inequalityStart] at *
      omega

theorem site_of_position {block : Block}
    (inside : i < (layout.shape block).1 ∧ j < (layout.shape block).2)
    (placed : layout.position block i j = some (row, col)) :
    layout.site row col = .block block i j := by
  cases block with
  | cost =>
      rw [position] at placed
      split at placed <;> cases placed
      next upper =>
      rw [site, unknown_eq_x.mpr ⟨rfl, inside.1⟩,
        unknown_eq_x.mpr ⟨rfl, inside.2⟩]
      exact if_pos upper
  | equality =>
      cases placed
      rw [site, unknown_eq_x.mpr ⟨rfl, inside.2⟩, unknown_eq_y.mpr rfl]
  | inequality =>
      cases placed
      rw [site, unknown_eq_x.mpr ⟨rfl, inside.2⟩,
        unknown_eq_z.mpr ⟨rfl, inside.1⟩]

theorem site_eq_barrier_iff : layout.site row col = .barrier i ↔
    i < layout.inequalities ∧
      row = layout.slackStart + i ∧ col = layout.slackStart + i := by
  constructor
  · intro site
    rw [Layout.site] at site
    split at site
    · split at site <;> cases site
    · cases site
    · cases site
    · next _ _ sRow sCol =>
      split at site <;> cases site
      next same =>
      subst same
      obtain ⟨rfl, inside⟩ := unknown_eq_s.mp sRow
      exact ⟨inside, rfl, (unknown_eq_s.mp sCol).1⟩
    · split at site <;> cases site
    · cases site
  · rintro ⟨inside, rfl, rfl⟩
    rw [Layout.site, unknown_eq_s.mpr ⟨rfl, inside⟩]
    exact if_pos rfl

theorem site_eq_identity_iff : layout.site row col = .identity ↔
    (row, col) ∈ layout.slackPositions := by
  rw [slackPositions, List.mem_map]
  constructor
  · intro site
    rw [Layout.site] at site
    split at site
    · split at site <;> cases site
    · cases site
    · cases site
    · split at site <;> cases site
    · next i _ sRow zCol =>
      split at site <;> cases site
      next same =>
      subst same
      obtain ⟨rfl, inside⟩ := unknown_eq_s.mp sRow
      obtain ⟨rfl, _⟩ := unknown_eq_z.mp zCol
      exact ⟨i, List.mem_range.mpr inside, rfl⟩
    · cases site
  · rintro ⟨i, member, same⟩
    cases same
    have inside := List.mem_range.mp member
    rw [Layout.site, unknown_eq_s.mpr ⟨rfl, inside⟩,
      unknown_eq_z.mpr ⟨rfl, inside⟩]
    exact if_pos rfl

end Layout

theorem Block.mem_all (block : Block) :
    block ∈ [Block.cost, .equality, .inequality] := by
  cases block <;> simp

namespace Blocks

variable {α : Type} {blocks : Blocks α} {layout : Layout} {block : Block}
  {row col i j : Nat}

def coordinates (blocks : Blocks α) (block : Block) : List (Nat × Nat) :=
  (blocks.get block).elim [] Sparse.coordinates

def values (blocks : Blocks α) (block : Block) : List α :=
  (blocks.get block).elim [] Sparse.values

def entry [Zero α] (blocks : Blocks α) (block : Block) (row col : Nat) : α :=
  (blocks.get block).elim 0 fun matrix => matrix.entry row col

/-- Every block that is present has the shape that the layout asks for. -/
def Shaped (blocks : Blocks α) (layout : Layout) : Prop :=
  ∀ block matrix, blocks.get block = some matrix →
    (matrix.rows, matrix.cols) = layout.shape block

def WellFormed (blocks : Blocks α) : Prop :=
  ∀ block matrix, blocks.get block = some matrix → matrix.WellFormed

@[simp] theorem get_set (blocks : Blocks α) (block : Block)
    (matrix : Sparse α) :
    (blocks.set block matrix).get block = some matrix := by
  cases block <;> rfl

theorem get_set_of_ne {other : Block} (ne : other ≠ block)
    (matrix : Sparse α) :
    (blocks.set block matrix).get other = blocks.get other := by
  cases block <;> cases other <;> first | rfl | exact absurd rfl ne

theorem WellFormed.nodup_coordinates (wellFormed : blocks.WellFormed)
    (block : Block) : (blocks.coordinates block).Nodup := by
  rw [coordinates]
  cases found : blocks.get block with
  | none => exact List.nodup_nil
  | some matrix => exact (wellFormed block matrix found).nodup_coordinates

theorem WellFormed.coordinates_inside (wellFormed : blocks.WellFormed)
    (shaped : blocks.Shaped layout)
    (member : (row, col) ∈ blocks.coordinates block) :
    row < (layout.shape block).1 ∧ col < (layout.shape block).2 := by
  rw [coordinates] at member
  cases found : blocks.get block with
  | none => simp [found] at member
  | some matrix =>
      rw [found] at member
      rw [← shaped block matrix found]
      exact (wellFormed block matrix found).coordinates_inside member

theorem entry_eq [Zero α] {value : α}
    (nodup : (blocks.coordinates block).Nodup)
    (member : ((row, col), value) ∈
      (blocks.coordinates block).zip (blocks.values block)) :
    blocks.entry block row col = value := by
  rw [coordinates, values] at member
  rw [coordinates] at nodup
  rw [entry]
  cases found : blocks.get block with
  | none => simp [found] at member
  | some matrix =>
      rw [found] at member nodup
      exact Sparse.entry_eq nodup member

theorem entry_eq_zero [Zero α]
    (missing : (row, col) ∉ blocks.coordinates block) :
    blocks.entry block row col = 0 := by
  rw [coordinates] at missing
  rw [entry]
  cases found : blocks.get block with
  | none => rfl
  | some matrix =>
      rw [found] at missing
      exact Sparse.entry_eq_zero missing

theorem length_coordinates :
    (blocks.coordinates block).length = (blocks.values block).length := by
  rw [coordinates, values]
  cases blocks.get block with
  | none => rfl
  | some matrix => exact Sparse.length_coordinates

/-! The places of entries. -/

theorem positions_eq : layout.positions block (blocks.get block) =
    (blocks.coordinates block).map fun (row, col) =>
      layout.position block row col := by
  rw [Layout.positions, coordinates]
  cases blocks.get block with
  | none => rfl
  | some matrix =>
      rw [Option.elim_some, Option.elim_some, Sparse.coordinates, List.map_map]
      rfl

theorem mem_allPositions : (row, col) ∈ layout.allPositions blocks ↔
    (∃ block i j, (i, j) ∈ blocks.coordinates block ∧
      layout.position block i j = some (row, col)) ∨
    (row, col) ∈ layout.slackPositions := by
  rw [Layout.allPositions, List.mem_append, List.mem_flatMap]
  refine or_congr_left ?_
  simp only [Block.mem_all, true_and, List.mem_filterMap, id, positions_eq,
    List.mem_map]
  refine exists_congr fun block => ?_
  constructor
  · rintro ⟨_, ⟨⟨i, j⟩, member, rfl⟩, placed⟩
    exact ⟨i, j, member, placed⟩
  · rintro ⟨i, j, member, placed⟩
    exact ⟨_, ⟨(i, j), member, rfl⟩, placed⟩

theorem allPositions_upper (wellFormed : blocks.WellFormed)
    (shaped : blocks.Shaped layout)
    (member : (row, col) ∈ layout.allPositions blocks) :
    row ≤ col ∧ col < layout.size := by
  rcases mem_allPositions.mp member with ⟨block, i, j, stored, placed⟩ | slack
  · exact Layout.position_upper
      (wellFormed.coordinates_inside shaped stored) placed
  · obtain ⟨i, listed, same⟩ := List.mem_map.mp slack
    cases same
    have inside := List.mem_range.mp listed
    simp only [Layout.slackStart, Layout.inequalityStart, Layout.size]
    omega

end Blocks

/-- What a system is to show: the problem data and the barrier diagonal. -/
structure Data (α : Type) where
  blocks : Blocks α
  barrier : Array α
  deriving Repr

namespace Data

variable {α : Type} [Zero α] [One α] {data : Data α} {layout : Layout}
  {block : Block} {row col i j : Nat}

/-- The entry at a place of the upper triangle. -/
def entry (data : Data α) (layout : Layout) (row col : Nat) : α :=
  match layout.site row col with
  | .block block i j => data.blocks.entry block i j
  | .barrier i => data.barrier.getD i 0
  | .identity => 1
  | .empty => 0

theorem entry_of_block (site : layout.site row col = .block block i j) :
    data.entry layout row col = data.blocks.entry block i j := by
  rw [entry, site]

theorem entry_of_barrier (site : layout.site row col = .barrier i) :
    data.entry layout row col = data.barrier.getD i 0 := by
  rw [entry, site]

theorem entry_set_barrier (barrier : Array α)
    (elsewhere : ∀ i, layout.site row col ≠ .barrier i) :
    { data with barrier }.entry layout row col =
      data.entry layout row col := by
  rw [entry, entry]
  split
  · rfl
  · next i site => exact absurd site (elsewhere i)
  · rfl
  · rfl

theorem entry_set_block (matrix : Sparse α)
    (elsewhere : ∀ i j, layout.site row col ≠ .block block i j) :
    { data with blocks := data.blocks.set block matrix }.entry layout row col =
      data.entry layout row col := by
  rw [entry, entry]
  split
  · next other i j site =>
    have ne : other ≠ block := by
      rintro rfl
      exact elsewhere i j site
    dsimp only
    rw [Blocks.entry, Blocks.entry, Blocks.get_set_of_ne ne]
  · rfl
  · rfl
  · rfl

end Data

end QuasiDefinite
