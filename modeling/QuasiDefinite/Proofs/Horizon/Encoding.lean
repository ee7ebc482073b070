import QuasiDefinite.Proofs.Horizon.Blocks
import QuasiDefinite.Proofs.Machine.Value
import QuasiDefinite.Proofs.NewtonSystem.Updates
import QuasiDefinite.Proofs.Sparse.Sums

namespace QuasiDefinite

variable {α K : Type}

namespace Sparse

/-- No place is named by two triplets. -/
def Distinct (triplets : List (Nat × Nat × α)) : Prop :=
  (triplets.map fun (row, col, _) => (row, col)).Nodup

/-- The matrix stores every triplet where it belongs, and none is added to
another. -/
structure StoresEach (matrix : Sparse α) (rows cols : Nat)
    (triplets : List (Nat × Nat × α)) : Prop where
  rows_eq : matrix.rows = rows
  cols_eq : matrix.cols = cols
  inside : ∀ row col stored, (row, col, stored) ∈ triplets →
    row < rows ∧ col < cols
  distinct : Distinct triplets
  perm : matrix.entries.Perm triplets

variable {triplets more : List (Nat × Nat × α)} {size : Nat}

theorem disjoint_places (apart : ∀ row col value other,
      (row, col, value) ∈ triplets → (row, col, other) ∉ more) :
    (triplets.map fun (row, col, _) => (row, col)).Disjoint
      (more.map fun (row, col, _) => (row, col)) := by
  refine List.disjoint_left.mpr fun place here there => ?_
  obtain ⟨⟨row, col, value⟩, member, rfl⟩ := List.mem_map.mp here
  obtain ⟨⟨row, col, other⟩, member', same⟩ := List.mem_map.mp there
  cases same
  exact apart row col value other member member'

theorem distinct_append (first : Distinct triplets) (later : Distinct more)
    (apart : ∀ row col value other,
      (row, col, value) ∈ triplets → (row, col, other) ∉ more) :
    Distinct (triplets ++ more) := by
  rw [Distinct, List.map_append]
  exact List.Nodup.append first later (disjoint_places apart)

theorem distinct_flatMap_range {part : Nat → List (Nat × Nat × α)}
    (owner : Nat → Nat → Nat)
    (owned : ∀ k < size, ∀ row col value,
      (row, col, value) ∈ part k → owner row col = k)
    (distinct : ∀ k < size, Distinct (part k)) :
    Distinct ((List.range size).flatMap part) := by
  rw [Distinct, List.map_flatMap, List.nodup_flatMap]
  refine ⟨fun k member => distinct k (List.mem_range.mp member), ?_⟩
  refine List.nodup_range.imp_of_mem fun {k l} memberK memberL differs => ?_
  refine disjoint_places fun row col value other member member' => differs ?_
  rw [← owned k (List.mem_range.mp memberK) row col value member,
    owned l (List.mem_range.mp memberL) row col other member']

theorem distinct_map_range {row col : Nat → Nat} {value : Nat → α}
    (inj : ∀ i < size, ∀ j < size, row i = row j ∧ col i = col j → i = j) :
    Distinct ((List.range size).map fun i => (row i, col i, value i)) := by
  rw [Distinct, List.map_map]
  refine List.Nodup.map_on (fun i memberI j memberJ same => ?_)
    List.nodup_range
  exact inj i (List.mem_range.mp memberI) j (List.mem_range.mp memberJ)
    (Prod.mk.inj same)

section Product

variable [CommRing K] {value : α → K} {v : Nat → K} {row : Nat}

/-- What the triplets of a row make of a vector, their numbers read as `value`
says. -/
def rowSum (value : α → K) (v : Nat → K) (row : Nat)
    (triplets : List (Nat × Nat × α)) : K :=
  (triplets.map fun (row', col, stored) =>
    if row' = row then value stored * v col else 0).sum

def rowProduct (matrix : Sparse α) (value : α → K) (v : Nat → K) (row : Nat) :
    K :=
  rowSum value v row matrix.entries

theorem rowProduct_of_perm {matrix : Sparse α}
    (perm : matrix.entries.Perm triplets) :
    matrix.rowProduct value v row = rowSum value v row triplets :=
  (perm.map _).sum_eq

theorem rowSum_append : rowSum value v row (triplets ++ more) =
    rowSum value v row triplets + rowSum value v row more := by
  rw [rowSum, List.map_append, List.sum_append]
  rfl

theorem rowSum_eq_zero
    (absent : ∀ col stored, (row, col, stored) ∉ triplets) :
    rowSum value v row triplets = 0 := by
  refine List.sum_eq_zero fun term member => ?_
  obtain ⟨⟨row', col, stored⟩, listed, rfl⟩ := List.mem_map.mp member
  refine if_neg fun same => ?_
  exact absent col stored (same ▸ listed)

theorem rowSum_flatMap_range {part : Nat → List (Nat × Nat × α)} {k : Nat}
    (inside : k < size)
    (owned : ∀ l < size, ∀ col stored, (row, col, stored) ∈ part l → l = k) :
    rowSum value v row ((List.range size).flatMap part) =
      rowSum value v row (part k) := by
  rw [rowSum, sum_map_flatMap, sum_map_range]
  refine Finset.sum_eq_single_of_mem k (Finset.mem_range.mpr inside) ?_
  intro l member differs
  refine rowSum_eq_zero fun col stored listed => differs ?_
  exact owned l (Finset.mem_range.mp member) col stored listed

theorem rowSum_map_range {row' col : Nat → Nat} {stored : Nat → α} :
    rowSum value v row
        ((List.range size).map fun i => (row' i, col i, stored i)) =
      ∑ i ∈ Finset.range size,
        if row' i = row then value (stored i) * v (col i) else 0 := by
  rw [rowSum, List.map_map, ← sum_map_range]
  rfl

end Product

end Sparse

namespace Horizon

variable {horizon : Horizon} {model : Model α} {k l i j row col : Nat}

/-- The unknowns are the components of the states and of the inputs. -/
structure Splits (horizon : Horizon) : Prop where
  count : horizon.unknowns =
    horizon.stages * (horizon.states + horizon.inputs) + horizon.states
  covers : ∀ index, index < horizon.unknowns ↔
    (∃ k ≤ horizon.stages, ∃ i < horizon.states,
      index = horizon.stateIndex k i) ∨
    ∃ k < horizon.stages, ∃ i < horizon.inputs,
      index = horizon.inputIndex k i
  state_inj : ∀ k l i j, i < horizon.states → j < horizon.states →
    horizon.stateIndex k i = horizon.stateIndex l j → k = l ∧ i = j
  input_inj : ∀ k l i j, i < horizon.inputs → j < horizon.inputs →
    horizon.inputIndex k i = horizon.inputIndex l j → k = l ∧ i = j
  apart : ∀ k l i j, i < horizon.inputs → j < horizon.states →
    horizon.inputIndex k i ≠ horizon.stateIndex l j

theorem inputIndex_inj (insideI : i < horizon.inputs)
    (insideJ : j < horizon.inputs) :
    horizon.inputIndex k i = horizon.inputIndex l j ↔ k = l ∧ i = j := by
  rw [inputIndex_eq, inputIndex_eq, place_inj (Nat.add_lt_add_left insideI _)
    (Nat.add_lt_add_left insideJ _), Nat.add_left_cancel_iff]

theorem splits (horizon : Horizon) : horizon.Splits where
  count := rfl
  covers index := by
    refine ⟨exists_stateIndex_or_inputIndex, ?_⟩
    rintro (⟨k, stage, i, inside, rfl⟩ | ⟨k, stage, i, inside, rfl⟩)
    · exact stateIndex_lt stage inside
    · exact inputIndex_lt stage inside
  state_inj _ _ _ _ insideI insideJ := (stateIndex_inj insideI insideJ).mp
  input_inj _ _ _ _ insideI insideJ := (inputIndex_inj insideI insideJ).mp
  apart _ _ _ _ insideI insideJ := inputIndex_ne_stateIndex insideI insideJ

/-- The costs of the components of a state, those that neighbours share, and
the costs of the components of an input. -/
def CostEntry (horizon : Horizon) (model : Model α) (row col : Nat)
    (value : α) : Prop :=
  (∃ k ≤ horizon.stages, ∃ i < horizon.states,
    row = horizon.stateIndex k i ∧
      (col = horizon.stateIndex k i ∧ value = model.stateCost k i ∨
        i + 1 < horizon.states ∧ col = horizon.stateIndex k (i + 1) ∧
          value = model.coupling k i)) ∨
  ∃ k < horizon.stages, ∃ i < horizon.inputs,
    row = horizon.inputIndex k i ∧ col = horizon.inputIndex k i ∧
      value = model.inputCost k i

theorem mem_costTriplets {value : α} :
    (row, col, value) ∈ horizon.costTriplets model ↔
      horizon.CostEntry model row col value := by
  have next (k i : Nat) : horizon.stateIndex k i + 1 =
      horizon.stateIndex k (i + 1) := Nat.add_assoc ..
  simp only [costTriplets, CostEntry, next, List.mem_flatMap, List.mem_append,
    List.mem_range, List.mem_cons, Prod.mk.injEq, List.mem_ite_nil_right,
    List.mem_map, List.not_mem_nil, or_false]
  constructor
  · rintro ⟨k, stage, ⟨i, inside, own | shared⟩ | ⟨before, i, inside, same⟩⟩
    · exact .inl ⟨k, Nat.le_of_lt_succ stage, i, inside, own.1, .inl own.2⟩
    · exact .inl ⟨k, Nat.le_of_lt_succ stage, i, inside, shared.2.1,
        .inr ⟨shared.1, shared.2.2⟩⟩
    · exact .inr ⟨k, before, i, inside, same.1.symm, same.2.1.symm,
        same.2.2.symm⟩
  · rintro (⟨k, stage, i, inside, here, own | shared⟩ |
      ⟨k, before, i, inside, here, there, same⟩)
    · exact ⟨k, Nat.lt_succ_of_le stage, .inl ⟨i, inside, .inl ⟨here, own⟩⟩⟩
    · exact ⟨k, Nat.lt_succ_of_le stage,
        .inl ⟨i, inside, .inr ⟨shared.1, here, shared.2⟩⟩⟩
    · exact ⟨k, Nat.lt_succ_of_lt before,
        .inr ⟨before, i, inside, here.symm, there.symm, same.symm⟩⟩

/-! No place is named twice. -/

section Distinct

open Sparse (Distinct)

theorem place_div {width k i : Nat} (inside : i < width) :
    (k * width + i) / width = k := by
  rw [Nat.mul_comm, Nat.mul_add_div (Nat.zero_lt_of_lt inside),
    Nat.div_eq_of_lt inside, Nat.add_zero]

theorem stateIndex_div (inside : i < horizon.states) :
    horizon.stateIndex k i / (horizon.states + horizon.inputs) = k :=
  place_div (Nat.lt_add_right _ inside)

theorem inputIndex_div (inside : i < horizon.inputs) :
    horizon.inputIndex k i / (horizon.states + horizon.inputs) = k := by
  rw [inputIndex_eq]
  exact place_div (Nat.add_lt_add_left inside _)

def stateTriplets (horizon : Horizon) (model : Model α) (k i : Nat) :
    List (Nat × Nat × α) :=
  (horizon.stateIndex k i, horizon.stateIndex k i, model.stateCost k i) ::
    if i + 1 < horizon.states then
      [(horizon.stateIndex k i, horizon.stateIndex k i + 1,
        model.coupling k i)]
    else []

def inputTriplets (horizon : Horizon) (model : Model α) (k : Nat) :
    List (Nat × Nat × α) :=
  if k < horizon.stages then
    (List.range horizon.inputs).map fun i =>
      (horizon.inputIndex k i, horizon.inputIndex k i, model.inputCost k i)
  else []

theorem costTriplets_eq : horizon.costTriplets model =
    (List.range (horizon.stages + 1)).flatMap fun k =>
      (List.range horizon.states).flatMap (horizon.stateTriplets model k) ++
        horizon.inputTriplets model k :=
  rfl

theorem row_stateTriplets {value : α}
    (member : (row, col, value) ∈ horizon.stateTriplets model k i) :
    row = horizon.stateIndex k i := by
  rcases List.mem_cons.mp member with own | shared
  · cases own
    rfl
  · obtain ⟨_, shared⟩ := List.mem_ite_nil_right.mp shared
    cases List.mem_singleton.mp shared
    rfl

theorem row_inputTriplets {value : α}
    (member : (row, col, value) ∈ horizon.inputTriplets model k) :
    ∃ i < horizon.inputs, row = horizon.inputIndex k i := by
  obtain ⟨_, member⟩ := List.mem_ite_nil_right.mp member
  obtain ⟨i, listed, same⟩ := List.mem_map.mp member
  cases same
  exact ⟨i, List.mem_range.mp listed, rfl⟩

theorem distinct_costTriplets (horizon : Horizon) (model : Model α) :
    Distinct (horizon.costTriplets model) := by
  rw [costTriplets_eq]
  refine Sparse.distinct_flatMap_range
    (fun row _ => row / (horizon.states + horizon.inputs)) ?_ ?_
  · intro k _ row col value member
    rcases List.mem_append.mp member with state | input
    · obtain ⟨i, listed, member⟩ := List.mem_flatMap.mp state
      rw [row_stateTriplets member]
      exact stateIndex_div (List.mem_range.mp listed)
    · obtain ⟨i, inside, rfl⟩ := row_inputTriplets input
      exact inputIndex_div inside
  · intro k _
    refine Sparse.distinct_append ?_ ?_ ?_
    · refine Sparse.distinct_flatMap_range
        (fun row _ => row - horizon.stateIndex k 0) ?_ ?_
      · intro i _ row col value member
        rw [row_stateTriplets member]
        exact Nat.add_sub_cancel_left ..
      · intro i _
        rw [stateTriplets, Distinct]
        split
        · simp
        · exact List.nodup_singleton _
    · rw [inputTriplets]
      split
      · refine Sparse.distinct_map_range fun i insideI j insideJ same => ?_
        exact ((inputIndex_inj insideI insideJ).mp same.1).2
      · exact List.nodup_nil
    · intro row col value other state input
      obtain ⟨i, listed, member⟩ := List.mem_flatMap.mp state
      obtain ⟨j, inside, same⟩ := row_inputTriplets input
      rw [row_stateTriplets member] at same
      exact inputIndex_ne_stateIndex inside (List.mem_range.mp listed)
        same.symm

variable [Scalar α]

def stepTriplets (horizon : Horizon) (model : Model α) (k i : Nat) :
    List (Nat × Nat × α) :=
  let row := (k + 1) * horizon.states + i
  [(row, horizon.stateIndex (k + 1) i, 1)] ++
    ((List.range horizon.states).map fun j =>
      (row, horizon.stateIndex k j, -model.drift i j)) ++
    (List.range horizon.inputs).map fun j =>
      (row, horizon.inputIndex k j, -model.gain i j)

theorem equalityTriplets_eq : horizon.equalityTriplets model =
    ((List.range horizon.states).map fun i =>
      (i, horizon.stateIndex 0 i, 1)) ++
    (List.range horizon.stages).flatMap fun k =>
      (List.range horizon.states).flatMap (horizon.stepTriplets model k) :=
  rfl

theorem row_stepTriplets {value : α}
    (member : (row, col, value) ∈ horizon.stepTriplets model k i) :
    row = (k + 1) * horizon.states + i := by
  rcases List.mem_append.mp member with member | input
  · rcases List.mem_append.mp member with next | state
    · cases List.mem_singleton.mp next
      rfl
    · obtain ⟨j, _, same⟩ := List.mem_map.mp state
      cases same
      rfl
  · obtain ⟨j, _, same⟩ := List.mem_map.mp input
    cases same
    rfl

theorem distinct_stepTriplets (inside : i < horizon.states) :
    Distinct (horizon.stepTriplets model k i) := by
  refine Sparse.distinct_append (Sparse.distinct_append ?_ ?_ ?_) ?_ ?_
  · exact List.nodup_singleton _
  · refine Sparse.distinct_map_range fun j insideJ l insideL same => ?_
    exact ((stateIndex_inj insideJ insideL).mp same.2).2
  · intro row col value other next state
    cases List.mem_singleton.mp next
    obtain ⟨j, listed, same⟩ := List.mem_map.mp state
    have column := congrArg (fun triplet => triplet.2.1) same
    have earlier :=
      ((stateIndex_inj (List.mem_range.mp listed) inside).mp column).1
    exact Nat.succ_ne_self k earlier.symm
  · refine Sparse.distinct_map_range fun j insideJ l insideL same => ?_
    exact ((inputIndex_inj insideJ insideL).mp same.2).2
  · intro row col value other member input
    obtain ⟨j, listed, same⟩ := List.mem_map.mp input
    have column := congrArg (fun triplet => triplet.2.1) same
    rcases List.mem_append.mp member with next | state
    · cases List.mem_singleton.mp next
      exact inputIndex_ne_stateIndex (List.mem_range.mp listed) inside column
    · obtain ⟨l, listed', same'⟩ := List.mem_map.mp state
      have column' := congrArg (fun triplet => triplet.2.1) same'
      exact inputIndex_ne_stateIndex (List.mem_range.mp listed)
        (List.mem_range.mp listed') (column.trans column'.symm)

theorem distinct_equalityTriplets (horizon : Horizon) (model : Model α) :
    Distinct (horizon.equalityTriplets model) := by
  rw [equalityTriplets_eq]
  refine Sparse.distinct_append ?_ ?_ ?_
  · exact Sparse.distinct_map_range fun i _ j _ same => same.1
  · refine Sparse.distinct_flatMap_range
      (fun row _ => row / horizon.states - 1) ?_ ?_
    · intro k _ row col value member
      obtain ⟨i, listed, member⟩ := List.mem_flatMap.mp member
      rw [row_stepTriplets member, place_div (List.mem_range.mp listed),
        Nat.add_sub_cancel]
    · intro k _
      refine Sparse.distinct_flatMap_range
        (fun row _ => row - (k + 1) * horizon.states) ?_ ?_
      · intro i _ row col value member
        rw [row_stepTriplets member, Nat.add_sub_cancel_left]
      · intro i inside
        exact distinct_stepTriplets inside
  · intro row col value other initial step
    obtain ⟨i, listed, same⟩ := List.mem_map.mp initial
    cases same
    obtain ⟨k, _, member⟩ := List.mem_flatMap.mp step
    obtain ⟨j, _, member⟩ := List.mem_flatMap.mp member
    have row_eq := row_stepTriplets member
    have inside := List.mem_range.mp listed
    rw [Nat.succ_mul] at row_eq
    omega

def boundTriplets (horizon : Horizon) (k i : Nat) : List (Nat × Nat × α) :=
  let row := 2 * (k * horizon.inputs + i)
  [(row, horizon.inputIndex k i, 1), (row + 1, horizon.inputIndex k i, -1)]

theorem inequalityTriplets_eq :
    (horizon.inequalityTriplets : List (Nat × Nat × α)) =
      (List.range horizon.stages).flatMap fun k =>
        (List.range horizon.inputs).flatMap (horizon.boundTriplets k) :=
  rfl

theorem row_boundTriplets {value : α}
    (member : (row, col, value) ∈ horizon.boundTriplets k i) :
    row / 2 = k * horizon.inputs + i := by
  rcases List.mem_cons.mp member with above | member
  · cases above
    exact Nat.mul_div_cancel_left _ Nat.two_pos
  · cases List.mem_singleton.mp member
    rw [Nat.mul_add_div Nat.two_pos]
    rfl

theorem distinct_inequalityTriplets (horizon : Horizon) :
    Distinct (horizon.inequalityTriplets : List (Nat × Nat × α)) := by
  rw [inequalityTriplets_eq]
  refine Sparse.distinct_flatMap_range
    (fun row _ => row / 2 / horizon.inputs) ?_ ?_
  · intro k _ row col value member
    obtain ⟨i, listed, member⟩ := List.mem_flatMap.mp member
    rw [row_boundTriplets member, place_div (List.mem_range.mp listed)]
  · intro k _
    refine Sparse.distinct_flatMap_range
      (fun row _ => row / 2 - k * horizon.inputs) ?_ ?_
    · intro i _ row col value member
      rw [row_boundTriplets member, Nat.add_sub_cancel_left]
    · intro i _
      simp [Distinct, boundTriplets]

theorem distinct_triplets (horizon : Horizon) (model : Model α)
    (block : Block) : Distinct (horizon.triplets model block) := by
  cases block with
  | cost => exact distinct_costTriplets horizon model
  | equality => exact distinct_equalityTriplets horizon model
  | inequality => exact distinct_inequalityTriplets horizon

end Distinct

/-! Rows of the equalities and inequalities. -/

section Rows

variable [Scalar α] [CommRing K] {value : α → K}

theorem rowSum_stepTriplets (v : Nat → K) :
    Sparse.rowSum value v ((k + 1) * horizon.states + i)
        (horizon.stepTriplets model k i) =
      value 1 * v (horizon.stateIndex (k + 1) i) +
        ∑ j ∈ Finset.range horizon.states,
          value (-model.drift i j) * v (horizon.stateIndex k j) +
        ∑ j ∈ Finset.range horizon.inputs,
          value (-model.gain i j) * v (horizon.inputIndex k j) := by
  rw [stepTriplets, Sparse.rowSum_append, Sparse.rowSum_append,
    Sparse.rowSum_map_range, Sparse.rowSum_map_range]
  simp [Sparse.rowSum]

variable (faithful : Faithful value) (v : Nat → K)

include faithful

theorem rowSum_initial (inside : i < horizon.states) :
    Sparse.rowSum value v i (horizon.equalityTriplets model) =
      v (horizon.stateIndex 0 i) := by
  have absent : Sparse.rowSum value v i ((List.range horizon.stages).flatMap
      fun k => (List.range horizon.states).flatMap
        (horizon.stepTriplets model k)) = 0 := by
    refine Sparse.rowSum_eq_zero fun col stored member => ?_
    obtain ⟨k, _, member⟩ := List.mem_flatMap.mp member
    obtain ⟨j, _, member⟩ := List.mem_flatMap.mp member
    have row_eq := row_stepTriplets member
    rw [Nat.succ_mul] at row_eq
    omega
  rw [equalityTriplets_eq, Sparse.rowSum_append, absent, add_zero,
    Sparse.rowSum_map_range, Finset.sum_ite_eq' _ i,
    if_pos (Finset.mem_range.mpr inside), faithful.one, one_mul]

theorem rowSum_step (stage : k < horizon.stages) (inside : i < horizon.states) :
    Sparse.rowSum value v ((k + 1) * horizon.states + i)
        (horizon.equalityTriplets model) =
      v (horizon.stateIndex (k + 1) i) -
        ∑ j ∈ Finset.range horizon.states,
          value (model.drift i j) * v (horizon.stateIndex k j) -
        ∑ j ∈ Finset.range horizon.inputs,
          value (model.gain i j) * v (horizon.inputIndex k j) := by
  have absent : Sparse.rowSum value v ((k + 1) * horizon.states + i)
      ((List.range horizon.states).map fun i =>
        (i, horizon.stateIndex 0 i, (1 : α))) = 0 := by
    refine Sparse.rowSum_eq_zero fun col stored member => ?_
    obtain ⟨j, listed, same⟩ := List.mem_map.mp member
    have row_eq := congrArg Prod.fst same
    have insideJ := List.mem_range.mp listed
    rw [Nat.succ_mul] at row_eq
    omega
  rw [equalityTriplets_eq, Sparse.rowSum_append, absent, zero_add,
    Sparse.rowSum_flatMap_range stage, Sparse.rowSum_flatMap_range inside,
    rowSum_stepTriplets]
  · simp only [faithful.one, faithful.neg, one_mul, neg_mul,
      Finset.sum_neg_distrib, sub_eq_add_neg]
  · intro j _ col stored member
    exact (Nat.add_left_cancel (row_stepTriplets member)).symm
  · intro l _ col stored member
    obtain ⟨j, listed, member⟩ := List.mem_flatMap.mp member
    have row_eq := row_stepTriplets member
    have same := (place_inj inside (List.mem_range.mp listed)).mp row_eq
    exact (Nat.succ.inj same.1).symm

theorem rowSum_bound (stage : k < horizon.stages)
    (inside : i < horizon.inputs) :
    Sparse.rowSum value v (2 * (k * horizon.inputs + i))
        horizon.inequalityTriplets = v (horizon.inputIndex k i) ∧
    Sparse.rowSum value v (2 * (k * horizon.inputs + i) + 1)
        horizon.inequalityTriplets = -v (horizon.inputIndex k i) := by
  have single (row : Nat) (half : row / 2 = k * horizon.inputs + i) :
      Sparse.rowSum value v row horizon.inequalityTriplets =
        Sparse.rowSum value v row (horizon.boundTriplets k i) := by
    rw [inequalityTriplets_eq, Sparse.rowSum_flatMap_range stage,
      Sparse.rowSum_flatMap_range inside]
    · intro j _ col stored member
      rw [row_boundTriplets member] at half
      exact Nat.add_left_cancel half
    · intro l _ col stored member
      obtain ⟨j, listed, member⟩ := List.mem_flatMap.mp member
      rw [row_boundTriplets member] at half
      exact ((place_inj (List.mem_range.mp listed) inside).mp half).1
  rw [single _ (by omega), single _ (by omega)]
  simp [Sparse.rowSum, boundTriplets, faithful.one, faithful.neg]

end Rows

/-- The blocks are those of the problem with the dynamics
`x (k + 1) = A * x k + B * u k`, where `A` and `B` hold the exact values of the
drift and of the gain, the same in every stage. -/
structure Encodes [Scalar α] [CommRing K] (horizon : Horizon)
    (model : Model α) (value : α → K) (cost equality inequality : Sparse α) :
    Prop where
  cost_stores : cost.StoresEach horizon.unknowns horizon.unknowns
    (horizon.costTriplets model)
  equality_stores : equality.StoresEach
    ((horizon.stages + 1) * horizon.states) horizon.unknowns
    (horizon.equalityTriplets model)
  inequality_stores : inequality.StoresEach
    (2 * horizon.stages * horizon.inputs) horizon.unknowns
    horizon.inequalityTriplets
  cost_upper : ∀ row col stored,
    (row, col, stored) ∈ cost.entries → row ≤ col
  cost_entries : ∀ row col stored,
    (row, col, stored) ∈ cost.entries ↔
      horizon.CostEntry model row col stored
  initial : ∀ v : Nat → K, ∀ i < horizon.states,
    equality.rowProduct value v i = v (horizon.stateIndex 0 i)
  step : ∀ v : Nat → K, ∀ k < horizon.stages, ∀ i < horizon.states,
    equality.rowProduct value v ((k + 1) * horizon.states + i) =
      v (horizon.stateIndex (k + 1) i) -
        ∑ j ∈ Finset.range horizon.states,
          value (model.drift i j) * v (horizon.stateIndex k j) -
        ∑ j ∈ Finset.range horizon.inputs,
          value (model.gain i j) * v (horizon.inputIndex k j)
  bounds : ∀ v : Nat → K, ∀ k < horizon.stages, ∀ j < horizon.inputs,
    inequality.rowProduct value v (2 * (k * horizon.inputs + j)) =
        v (horizon.inputIndex k j) ∧
      inequality.rowProduct value v (2 * (k * horizon.inputs + j) + 1) =
        -v (horizon.inputIndex k j)

theorem storesEach_of_madeOf [Scalar α] {block : Block} {matrix : Sparse α}
    (made : matrix.MadeOf .byColumn (horizon.layout.shape block).1
      (horizon.layout.shape block).2 (horizon.triplets model block)) :
    matrix.StoresEach (horizon.layout.shape block).1
      (horizon.layout.shape block).2 (horizon.triplets model block) where
  rows_eq := made.rows_eq
  cols_eq := made.cols_eq
  inside _ _ _ member := triplets_inside member
  distinct := distinct_triplets horizon model block
  perm := made.entries_perm (distinct_triplets horizon model block)

theorem encodes_of_stores [Scalar α] [CommRing K] {value : α → K}
    (faithful : Faithful value) {cost equality inequality : Sparse α}
    (cost_stores : cost.StoresEach horizon.unknowns horizon.unknowns
      (horizon.costTriplets model))
    (equality_stores : equality.StoresEach
      ((horizon.stages + 1) * horizon.states) horizon.unknowns
      (horizon.equalityTriplets model))
    (inequality_stores : inequality.StoresEach
      (2 * horizon.stages * horizon.inputs) horizon.unknowns
      horizon.inequalityTriplets) :
    horizon.Encodes model value cost equality inequality where
  cost_stores := cost_stores
  equality_stores := equality_stores
  inequality_stores := inequality_stores
  cost_upper _ _ _ member :=
    (costTriplets_inside (cost_stores.perm.mem_iff.mp member)).1
  cost_entries _ _ _ := cost_stores.perm.mem_iff.trans mem_costTriplets
  initial v i inside := by
    rw [Sparse.rowProduct_of_perm equality_stores.perm]
    exact rowSum_initial faithful v inside
  step v k stage i inside := by
    rw [Sparse.rowProduct_of_perm equality_stores.perm]
    exact rowSum_step faithful v stage inside
  bounds v k stage j inside := by
    rw [Sparse.rowProduct_of_perm inequality_stores.perm,
      Sparse.rowProduct_of_perm inequality_stores.perm]
    exact rowSum_bound faithful v stage inside

theorem blocks_encode_of_faithful [Scalar α] [CommRing K] {value : α → K}
    (faithful : Faithful value) (horizon : Horizon) (model : Model α) :
    ∃ cost equality inequality, horizon.blocks model =
        .ok ⟨some cost, some equality, some inequality⟩ ∧
      horizon.Encodes model value cost equality inequality ∧
      ∃ system events, NewtonSystem.assemble
        ⟨cost.rows, equality.rows, inequality.rows⟩
        ⟨some cost, some equality, some inequality⟩ =
          .ok (system, events) := by
  obtain ⟨blocks, ran, has⟩ := blocks_runs horizon model
  obtain ⟨cost, foundP, madeP⟩ := has .cost
  obtain ⟨equality, foundA, madeA⟩ := has .equality
  obtain ⟨inequality, foundG, madeG⟩ := has .inequality
  have blocks_eq : blocks = ⟨some cost, some equality, some inequality⟩ := by
    obtain ⟨_, _, _⟩ := blocks
    cases foundP
    cases foundA
    cases foundG
    rfl
  have layout_eq : horizon.layout =
      ⟨cost.rows, equality.rows, inequality.rows⟩ := by
    rw [madeP.rows_eq, madeA.rows_eq, madeG.rows_eq]
    rfl
  obtain ⟨system, events, assembled, _⟩ :=
    NewtonSystem.assemble_runs has.wellFormed has.shaped
  rw [layout_eq, blocks_eq] at assembled
  rw [blocks_eq] at ran
  refine ⟨cost, equality, inequality, ran, ?_, system, events, assembled⟩
  exact encodes_of_stores faithful (storesEach_of_madeOf madeP)
    (storesEach_of_madeOf madeA) (storesEach_of_madeOf madeG)

/-- Whatever the dimensions are and whatever was drawn, the blocks are built,
say what they are meant to say, and are assembled under the layout that their
own rows make. -/
theorem blocks_encode (horizon : Horizon) (model : Model Float) :
    horizon.Splits ∧ ∃ cost equality inequality, horizon.blocks model =
        .ok ⟨some cost, some equality, some inequality⟩ ∧
      horizon.Encodes model (fun x => (Machine.value x : ℝ))
        cost equality inequality ∧
      ∃ system events, NewtonSystem.assemble
        ⟨cost.rows, equality.rows, inequality.rows⟩
        ⟨some cost, some equality, some inequality⟩ =
          .ok (system, events) :=
  ⟨horizon.splits,
    blocks_encode_of_faithful Machine.faithful_value horizon model⟩

end Horizon

end QuasiDefinite
