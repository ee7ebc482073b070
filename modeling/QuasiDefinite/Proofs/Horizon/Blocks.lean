import QuasiDefinite.Horizon.Problem
import QuasiDefinite.Proofs.NewtonSystem.Entries
import QuasiDefinite.Proofs.Sparse.Triplets

namespace QuasiDefinite.Horizon

/-! Places in rows of one width. -/

section Width

variable {width k l i j : Nat}

theorem place_lt {rows : Nat} (before : k < rows) (inside : i < width) :
    k * width + i < rows * width := by
  calc k * width + i < k * width + width := Nat.add_lt_add_left inside _
    _ = (k + 1) * width := (Nat.succ_mul k width).symm
    _ ≤ rows * width := Nat.mul_le_mul_right width before

theorem place_inj (insideI : i < width) (insideJ : j < width) :
    k * width + i = l * width + j ↔ k = l ∧ i = j := by
  constructor
  · intro same
    rcases Nat.lt_trichotomy k l with less | rfl | greater
    · have := place_lt less insideI
      omega
    · exact ⟨rfl, Nat.add_left_cancel same⟩
    · have := place_lt greater insideJ
      omega
  · rintro ⟨rfl, rfl⟩
    rfl

theorem exists_place {rows index : Nat} (inside : index < rows * width) :
    ∃ k < rows, ∃ i < width, index = k * width + i := by
  have positive : 0 < width := Nat.pos_of_ne_zero fun zero => by
    rw [zero, Nat.mul_zero] at inside
    exact Nat.not_lt_zero _ inside
  refine ⟨index / width, Nat.div_lt_of_lt_mul (Nat.mul_comm .. ▸ inside),
    index % width, Nat.mod_lt _ positive, ?_⟩
  rw [Nat.mul_comm, Nat.div_add_mod]

end Width

variable {horizon : Horizon} {k l i j index : Nat}

theorem inputIndex_eq : horizon.inputIndex k i =
    k * (horizon.states + horizon.inputs) + (horizon.states + i) :=
  Nat.add_assoc ..

theorem stateIndex_lt (stage : k ≤ horizon.stages)
    (inside : i < horizon.states) :
    horizon.stateIndex k i < horizon.unknowns :=
  Nat.add_lt_add_of_le_of_lt (Nat.mul_le_mul_right _ stage) inside

theorem inputIndex_lt (stage : k < horizon.stages)
    (inside : i < horizon.inputs) :
    horizon.inputIndex k i < horizon.unknowns := by
  rw [inputIndex_eq]
  exact Nat.lt_of_lt_of_le (place_lt stage (Nat.add_lt_add_left inside _))
    (Nat.le_add_right ..)

theorem stateIndex_inj (insideI : i < horizon.states)
    (insideJ : j < horizon.states) :
    horizon.stateIndex k i = horizon.stateIndex l j ↔ k = l ∧ i = j :=
  place_inj (Nat.lt_add_right _ insideI) (Nat.lt_add_right _ insideJ)

theorem inputIndex_ne_stateIndex (insideI : i < horizon.inputs)
    (insideJ : j < horizon.states) :
    horizon.inputIndex k i ≠ horizon.stateIndex l j := by
  rw [inputIndex_eq, stateIndex, Ne, place_inj (Nat.add_lt_add_left insideI _)
    (Nat.lt_add_right _ insideJ)]
  omega

theorem exists_stateIndex_or_inputIndex (inside : index < horizon.unknowns) :
    (∃ k ≤ horizon.stages, ∃ i < horizon.states,
      index = horizon.stateIndex k i) ∨
    ∃ k < horizon.stages, ∃ i < horizon.inputs,
      index = horizon.inputIndex k i := by
  rw [unknowns, stateIndex] at inside
  by_cases last : index <
      horizon.stages * (horizon.states + horizon.inputs)
  · obtain ⟨k, stage, i, small, rfl⟩ := exists_place last
    by_cases state : i < horizon.states
    · exact .inl ⟨k, Nat.le_of_lt stage, i, state, rfl⟩
    · refine .inr ⟨k, stage, i - horizon.states, by omega, ?_⟩
      rw [inputIndex_eq]
      omega
  · refine .inl ⟨horizon.stages, Nat.le_refl _, index -
      horizon.stages * (horizon.states + horizon.inputs), by omega, ?_⟩
    rw [stateIndex]
    omega

variable {α : Type} {model : Model α}

theorem costTriplets_inside {row col : Nat} {value : α}
    (member : (row, col, value) ∈ horizon.costTriplets model) :
    row ≤ col ∧ col < horizon.unknowns := by
  rw [costTriplets, List.mem_flatMap] at member
  obtain ⟨k, listed, member⟩ := member
  have stage := Nat.le_of_lt_succ (List.mem_range.mp listed)
  rcases List.mem_append.mp member with state | input
  · obtain ⟨i, listed, member⟩ := List.mem_flatMap.mp state
    have inside := List.mem_range.mp listed
    rcases List.mem_cons.mp member with own | shared
    · cases own
      exact ⟨Nat.le_refl _, stateIndex_lt stage inside⟩
    · split at shared
      · next more =>
        cases List.mem_singleton.mp shared
        exact ⟨Nat.le_succ _, stateIndex_lt stage more⟩
      · cases shared
  · split at input
    · next before =>
      obtain ⟨i, listed, same⟩ := List.mem_map.mp input
      cases same
      exact ⟨Nat.le_refl _, inputIndex_lt before (List.mem_range.mp listed)⟩
    · cases input

variable [Scalar α] {blocks : Blocks α}

theorem equalityTriplets_inside {row col : Nat} {value : α}
    (member : (row, col, value) ∈ horizon.equalityTriplets model) :
    row < (horizon.stages + 1) * horizon.states ∧ col < horizon.unknowns := by
  rw [equalityTriplets, List.mem_append, List.mem_map, List.mem_flatMap]
    at member
  rcases member with ⟨i, listed, same⟩ | ⟨k, listed, member⟩
  · cases same
    have inside := List.mem_range.mp listed
    have first := place_lt (Nat.succ_pos horizon.stages) inside
    rw [Nat.zero_mul, Nat.zero_add] at first
    exact ⟨first, stateIndex_lt (Nat.zero_le _) inside⟩
  · have stage := List.mem_range.mp listed
    obtain ⟨i, listed, member⟩ := List.mem_flatMap.mp member
    have inside := List.mem_range.mp listed
    have row_lt := place_lt (Nat.succ_lt_succ stage) inside
    rcases List.mem_append.mp member with member | input
    · rcases List.mem_cons.mp member with next | drift
      · cases next
        exact ⟨row_lt, stateIndex_lt stage inside⟩
      · obtain ⟨j, listed, same⟩ := List.mem_map.mp drift
        cases same
        exact ⟨row_lt,
          stateIndex_lt (Nat.le_of_lt stage) (List.mem_range.mp listed)⟩
    · obtain ⟨j, listed, same⟩ := List.mem_map.mp input
      cases same
      exact ⟨row_lt, inputIndex_lt stage (List.mem_range.mp listed)⟩

theorem inequalityTriplets_inside {row col : Nat} {value : α}
    (member : (row, col, value) ∈ horizon.inequalityTriplets) :
    row < 2 * horizon.stages * horizon.inputs ∧ col < horizon.unknowns := by
  rw [inequalityTriplets, List.mem_flatMap] at member
  obtain ⟨k, listed, member⟩ := member
  have stage := List.mem_range.mp listed
  obtain ⟨i, listed, member⟩ := List.mem_flatMap.mp member
  have inside := List.mem_range.mp listed
  have bound := place_lt stage inside
  rw [Nat.mul_assoc]
  rcases List.mem_cons.mp member with above | member
  · cases above
    exact ⟨by omega, inputIndex_lt stage inside⟩
  · cases List.mem_singleton.mp member
    exact ⟨by omega, inputIndex_lt stage inside⟩

def triplets (horizon : Horizon) (model : Model α) :
    Block → List (Nat × Nat × α)
  | .cost => horizon.costTriplets model
  | .equality => horizon.equalityTriplets model
  | .inequality => horizon.inequalityTriplets

theorem triplets_inside {block : Block} {row col : Nat} {value : α}
    (member : (row, col, value) ∈ horizon.triplets model block) :
    row < (horizon.layout.shape block).1 ∧
      col < (horizon.layout.shape block).2 := by
  cases block with
  | cost =>
      obtain ⟨upper, inside⟩ := costTriplets_inside member
      exact ⟨Nat.lt_of_le_of_lt upper inside, inside⟩
  | equality => exact equalityTriplets_inside member
  | inequality => exact inequalityTriplets_inside member

def HasBlocks (horizon : Horizon) (model : Model α) (blocks : Blocks α) :
    Prop :=
  ∀ block, ∃ matrix, blocks.get block = some matrix ∧
    matrix.MadeOf .byColumn (horizon.layout.shape block).1
      (horizon.layout.shape block).2 (horizon.triplets model block)

theorem blocks_runs (horizon : Horizon) (model : Model α) :
    ∃ blocks, horizon.blocks model = .ok blocks ∧
      horizon.HasBlocks model blocks := by
  have made (block : Block) : ∃ matrix,
      Sparse.ofTriplets .byColumn (horizon.layout.shape block).1
        (horizon.layout.shape block).2 (horizon.triplets model block) =
          .ok matrix ∧
      matrix.MadeOf .byColumn (horizon.layout.shape block).1
        (horizon.layout.shape block).2 (horizon.triplets model block) :=
    Sparse.ofTriplets_runs fun _ _ _ member => triplets_inside member
  choose matrix ran madeOf using made
  have upper : Sparse.ofUpperTriplets .byColumn horizon.unknowns
      (horizon.costTriplets model) = .ok (matrix .cost) :=
    (Sparse.ofUpperTriplets_eq fun row col value member =>
      (costTriplets_inside member).1).trans (ran .cost)
  refine ⟨⟨some (matrix .cost), some (matrix .equality),
    some (matrix .inequality)⟩, ?_, fun block =>
    ⟨matrix block, by cases block <;> rfl, madeOf block⟩⟩
  refine Checked.bind_eq_ok_iff.mpr ⟨_, upper, ?_⟩
  refine Checked.bind_eq_ok_iff.mpr ⟨_, ran .equality, ?_⟩
  exact Checked.bind_eq_ok_iff.mpr ⟨_, ran .inequality, rfl⟩

theorem HasBlocks.wellFormed (has : horizon.HasBlocks model blocks) :
    blocks.WellFormed := by
  intro block matrix found
  obtain ⟨made, here, madeOf⟩ := has block
  cases here.symm.trans found
  exact madeOf.ascending.wellFormed

theorem HasBlocks.shaped (has : horizon.HasBlocks model blocks) :
    blocks.Shaped horizon.layout := by
  intro block matrix found
  obtain ⟨made, here, madeOf⟩ := has block
  cases here.symm.trans found
  rw [madeOf.rows_eq, madeOf.cols_eq]

end QuasiDefinite.Horizon
