import Mathlib.Tactic.Linarith
import QuasiDefinite.Proofs.Horizon.Blocks
import QuasiDefinite.Proofs.NewtonSystem.Definite
import QuasiDefinite.Proofs.Sparse.Sums

namespace QuasiDefinite.Horizon

variable {K : Type} [ExactField K] {horizon : Horizon} {model : Model K}
  {data : Data K}

/-- The costs lie where they are drawn from; the dynamics may be anything. -/
structure Model.CostsInRange (model : Model K) (horizon : Horizon) : Prop where
  state : ∀ k ≤ horizon.stages, ∀ i < horizon.states,
    model.stateCost k i ∈ Set.Icc 1 4
  coupling : ∀ k ≤ horizon.stages, ∀ i, i + 1 < horizon.states →
    model.coupling k i ∈ Set.Icc (-(3 / 10)) (3 / 10)
  input : ∀ k < horizon.stages, ∀ i < horizon.inputs,
    model.inputCost k i ∈ Set.Icc (1 / 10) 1

def stateForm (horizon : Horizon) (model : Model K) (x : Nat → K) (k : Nat) :
    K :=
  ∑ i ∈ Finset.range horizon.states,
    (model.stateCost k i * x (horizon.stateIndex k i) ^ 2 +
      if i + 1 < horizon.states then
        2 * model.coupling k i * x (horizon.stateIndex k i) *
          x (horizon.stateIndex k (i + 1))
      else 0)

def inputForm (horizon : Horizon) (model : Model K) (x : Nat → K) (k : Nat) :
    K :=
  ∑ i ∈ Finset.range horizon.inputs,
    model.inputCost k i * x (horizon.inputIndex k i) ^ 2

theorem sum_costTriplets (horizon : Horizon) (model : Model K)
    (weight : Nat → Nat → K) :
    ((horizon.costTriplets model).map fun (row, col, value) =>
      value * weight row col).sum =
    ∑ k ∈ Finset.range (horizon.stages + 1),
      (∑ i ∈ Finset.range horizon.states,
        (model.stateCost k i *
            weight (horizon.stateIndex k i) (horizon.stateIndex k i) +
          if i + 1 < horizon.states then
            model.coupling k i *
              weight (horizon.stateIndex k i) (horizon.stateIndex k i + 1)
          else 0) +
        if k < horizon.stages then
          ∑ i ∈ Finset.range horizon.inputs, model.inputCost k i *
            weight (horizon.inputIndex k i) (horizon.inputIndex k i)
        else 0) := by
  rw [costTriplets, sum_map_flatMap, sum_map_range]
  refine Finset.sum_congr rfl fun k _ => ?_
  rw [List.map_append, List.sum_append, sum_map_flatMap, sum_map_range]
  congr 1
  · refine Finset.sum_congr rfl fun i _ => ?_
    rw [List.map_cons, List.sum_cons, apply_ite (List.map _),
      apply_ite List.sum, List.map_singleton, List.sum_singleton]
    rfl
  · split
    · rw [List.map_map, ← sum_map_range]
      rfl
    · rfl

theorem costEntry_eq_zero (has : horizon.HasBlocks model data.blocks)
    {row col : Nat} (below : col < row) :
    data.blocks.entry .cost row col = 0 := by
  obtain ⟨matrix, found, made⟩ := has .cost
  rw [Blocks.entry, found, Option.elim_some, made.entry_eq]
  refine List.sum_eq_zero fun value member => ?_
  obtain ⟨⟨row', col', stored⟩, listed, rfl⟩ := List.mem_map.mp member
  have upper := (costTriplets_inside listed).1
  exact if_neg (by omega)

theorem quadratic_costMatrix (has : horizon.HasBlocks model data.blocks)
    (x : Nat → K) :
    quadratic (data.costMatrix horizon.unknowns) (fun i => x i) =
      ∑ k ∈ Finset.range (horizon.stages + 1),
        (horizon.stateForm model x k +
          if k < horizon.stages then horizon.inputForm model x k else 0) := by
  obtain ⟨matrix, found, made⟩ := has .cost
  have entry (row col : Nat) :
      data.blocks.entry .cost row col = matrix.entry row col := by
    rw [Blocks.entry, found, Option.elim_some]
  let weight (i k : Nat) : K := (if i = k then 1 else 2) * (x i * x k)
  calc quadratic (data.costMatrix horizon.unknowns) (fun i => x i)
      = ∑ i : Fin horizon.unknowns, ∑ k : Fin horizon.unknowns,
          data.blocks.entry .cost (min i.val k.val) (max i.val k.val) *
            (x i * x k) := by
        rw [quadratic, dotProduct]
        refine Finset.sum_congr rfl fun i _ => ?_
        rw [Matrix.mulVec, dotProduct, Finset.mul_sum]
        exact Finset.sum_congr rfl fun k _ => mul_left_comm (x i) _ _
    _ = ∑ i : Fin horizon.unknowns, ∑ k : Fin horizon.unknowns,
          matrix.entry i k * weight i k := by
        rw [sum_mirrored fun _ _ below => costEntry_eq_zero has below]
        simp only [entry, weight]
    _ = ((horizon.costTriplets model).map fun (row, col, value) =>
          value * weight row col).sum :=
        made.sum_entry (fun _ _ _ member => triplets_inside member) weight
    _ = _ := by
        rw [sum_costTriplets]
        refine Finset.sum_congr rfl fun k _ => ?_
        rw [stateForm, inputForm]
        congr 1
        · refine Finset.sum_congr rfl fun i _ => ?_
          have next : horizon.stateIndex k i + 1 =
              horizon.stateIndex k (i + 1) := Nat.add_assoc ..
          simp only [weight, if_pos, if_neg (Nat.succ_ne_self _).symm]
          rw [next]
          split <;> ring
        · split
          · refine Finset.sum_congr rfl fun i _ => ?_
            simp only [weight, if_pos]
            ring
          · rfl

theorem sum_next_le {size : Nat} {term : Nat → K} (nonneg : ∀ i, 0 ≤ term i) :
    ∑ i ∈ Finset.range size, (if i + 1 < size then term (i + 1) else 0) ≤
      ∑ i ∈ Finset.range size, term i := by
  cases size with
  | zero => exact le_refl _
  | succ size =>
      rw [Finset.sum_range_succ, if_neg (Nat.lt_irrefl _), add_zero,
        Finset.sum_range_succ']
      refine le_add_of_le_of_nonneg (Finset.sum_le_sum fun i member => ?_)
        (nonneg 0)
      rw [if_pos (Nat.succ_lt_succ (Finset.mem_range.mp member))]

theorem le_own_add_shared {own shared x y : K} (own_ge : 1 ≤ own)
    (shared_in : shared ∈ Set.Icc (-(3 / 10)) (3 / 10)) :
    7 / 10 * x ^ 2 - 3 / 10 * y ^ 2 ≤ own * x ^ 2 + 2 * shared * x * y := by
  have first : 0 ≤ (own - 1) * x ^ 2 :=
    mul_nonneg (sub_nonneg.mpr own_ge) (sq_nonneg x)
  have minus : 0 ≤ (3 / 10 - shared) * (x - y) ^ 2 :=
    mul_nonneg (sub_nonneg.mpr shared_in.2) (sq_nonneg _)
  have plus : 0 ≤ (shared + 3 / 10) * (x + y) ^ 2 :=
    mul_nonneg (by linarith only [shared_in.1]) (sq_nonneg _)
  linarith only [first, minus, plus]

theorem le_stateForm (inRange : model.CostsInRange horizon) {k : Nat}
    (stage : k ≤ horizon.stages) (x : Nat → K) :
    2 / 5 * ∑ i ∈ Finset.range horizon.states,
        x (horizon.stateIndex k i) ^ 2 ≤ horizon.stateForm model x k := by
  let square (i : Nat) : K := x (horizon.stateIndex k i) ^ 2
  have next : ∑ i ∈ Finset.range horizon.states,
      (if i + 1 < horizon.states then square (i + 1) else 0) ≤
      ∑ i ∈ Finset.range horizon.states, square i :=
    sum_next_le fun i => sq_nonneg _
  have each : ∑ i ∈ Finset.range horizon.states, (7 / 10 * square i -
      3 / 10 * if i + 1 < horizon.states then square (i + 1) else 0) ≤
      horizon.stateForm model x k := by
    refine Finset.sum_le_sum fun i member => ?_
    have own := (inRange.state k stage i (Finset.mem_range.mp member)).1
    split
    · next more => exact le_own_add_shared own (inRange.coupling k stage i more)
    · have spare := mul_le_mul_of_nonneg_right own
        (sq_nonneg (x (horizon.stateIndex k i)))
      dsimp only [square]
      linarith only [spare, sq_nonneg (x (horizon.stateIndex k i))]
  rw [Finset.sum_sub_distrib, ← Finset.mul_sum, ← Finset.mul_sum] at each
  linarith only [each, next]

theorem stateForm_nonneg (inRange : model.CostsInRange horizon) {k : Nat}
    (stage : k ≤ horizon.stages) (x : Nat → K) :
    0 ≤ horizon.stateForm model x k := by
  refine le_trans ?_ (le_stateForm inRange stage x)
  have := Finset.sum_nonneg fun i (_ : i ∈ Finset.range horizon.states) =>
    sq_nonneg (x (horizon.stateIndex k i))
  positivity

theorem stateForm_pos (inRange : model.CostsInRange horizon) {k i : Nat}
    (stage : k ≤ horizon.stages) (inside : i < horizon.states) {x : Nat → K}
    (nonzero : x (horizon.stateIndex k i) ≠ 0) :
    0 < horizon.stateForm model x k := by
  refine lt_of_lt_of_le ?_ (le_stateForm inRange stage x)
  have := Finset.sum_pos' (fun i (_ : i ∈ Finset.range horizon.states) =>
    sq_nonneg (x (horizon.stateIndex k i)))
    ⟨i, Finset.mem_range.mpr inside, sq_pos_of_ne_zero nonzero⟩
  positivity

theorem inputCost_pos (inRange : model.CostsInRange horizon) {k i : Nat}
    (stage : k < horizon.stages) (inside : i < horizon.inputs) :
    0 < model.inputCost k i := by
  have own := (inRange.input k stage i inside).1
  linarith only [own]

theorem inputForm_nonneg (inRange : model.CostsInRange horizon) {k : Nat}
    (stage : k < horizon.stages) (x : Nat → K) :
    0 ≤ horizon.inputForm model x k := by
  refine Finset.sum_nonneg fun i member => mul_nonneg ?_ (sq_nonneg _)
  exact (inputCost_pos inRange stage (Finset.mem_range.mp member)).le

theorem inputForm_pos (inRange : model.CostsInRange horizon) {k i : Nat}
    (stage : k < horizon.stages) (inside : i < horizon.inputs) {x : Nat → K}
    (nonzero : x (horizon.inputIndex k i) ≠ 0) :
    0 < horizon.inputForm model x k := by
  have own {i : Nat} (inside : i < horizon.inputs) :=
    inputCost_pos inRange stage inside
  refine Finset.sum_pos' (fun i member => ?_) ⟨i, Finset.mem_range.mpr inside,
    mul_pos (own inside) (sq_pos_of_ne_zero nonzero)⟩
  exact mul_nonneg (own (Finset.mem_range.mp member)).le (sq_nonneg _)

theorem costMatrix_definite (has : horizon.HasBlocks model data.blocks)
    (inRange : model.CostsInRange horizon)
    (x : Fin horizon.unknowns → K) (nonzero : x ≠ 0) :
    0 < quadratic (data.costMatrix horizon.unknowns) x := by
  obtain ⟨whole, rfl, _⟩ := exists_extension x
  obtain ⟨index, found⟩ := Function.ne_iff.mp nonzero
  rw [Pi.zero_apply] at found
  rw [quadratic_costMatrix has]
  have states (k : Nat) (stage : k < horizon.stages + 1) :=
    stateForm_nonneg inRange (Nat.le_of_lt_succ stage) whole
  have inputs (k : Nat) : 0 ≤ if k < horizon.stages then
      horizon.inputForm model whole k else 0 := by
    split
    · next stage => exact inputForm_nonneg inRange stage whole
    · exact le_refl 0
  refine Finset.sum_pos' (fun k member =>
    add_nonneg (states k (Finset.mem_range.mp member)) (inputs k)) ?_
  rcases exists_stateIndex_or_inputIndex index.isLt with
    ⟨k, stage, i, inside, place⟩ | ⟨k, stage, i, inside, place⟩
  · rw [place] at found
    exact ⟨k, Finset.mem_range.mpr (Nat.lt_succ_of_le stage),
      add_pos_of_pos_of_nonneg (stateForm_pos inRange stage inside found)
        (inputs k)⟩
  · rw [place] at found
    refine ⟨k, Finset.mem_range.mpr (Nat.lt_succ_of_lt stage),
      add_pos_of_nonneg_of_pos (states k (Nat.lt_succ_of_lt stage)) ?_⟩
    rw [if_pos stage]
    exact inputForm_pos inRange stage inside found

end QuasiDefinite.Horizon
