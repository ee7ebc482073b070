import Mathlib.LinearAlgebra.Matrix.ToLin
import QuasiDefinite.Proofs.Horizon.Blocks
import QuasiDefinite.Proofs.NewtonSystem.Definite
import QuasiDefinite.Proofs.Sparse.Sums

namespace QuasiDefinite.Horizon

open Matrix

variable {K : Type} [ExactField K] {horizon : Horizon} {model : Model K}
  {data : Data K}

theorem sum_equalityTriplets (horizon : Horizon) (model : Model K)
    (weight : Nat → Nat → K) :
    ((horizon.equalityTriplets model).map fun (row, col, value) =>
      value * weight row col).sum =
    ∑ k ∈ Finset.range (horizon.stages + 1),
      ∑ i ∈ Finset.range horizon.states,
        weight (k * horizon.states + i) (horizon.stateIndex k i) +
    ∑ k ∈ Finset.range horizon.stages, ∑ i ∈ Finset.range horizon.states,
      (∑ j ∈ Finset.range horizon.states, -model.drift i j *
          weight ((k + 1) * horizon.states + i) (horizon.stateIndex k j) +
        ∑ j ∈ Finset.range horizon.inputs, -model.gain i j *
          weight ((k + 1) * horizon.states + i)
            (horizon.inputIndex k j)) := by
  rw [equalityTriplets, List.map_append, List.sum_append,
    Finset.sum_range_succ']
  simp only [sum_map_flatMap, List.map_append, List.sum_append, List.map_cons,
    List.sum_cons, List.map_map, Function.comp_def, sum_map_range, one_mul,
    Finset.sum_add_distrib, Nat.zero_mul, Nat.zero_add]
  ring

theorem vecMul_equalityMatrix (has : horizon.HasBlocks model data.blocks)
    (w : Nat → K) (k : Fin horizon.layout.primal) :
    ((fun i : Fin horizon.layout.equalities => w i) ᵥ*
      data.equalityMatrix horizon.layout) k =
      ((horizon.equalityTriplets model).map fun (row, col, value) =>
        value * if col = k then w row else 0).sum := by
  obtain ⟨matrix, found, made⟩ := has .equality
  calc ((fun i : Fin horizon.layout.equalities => w i) ᵥ*
        data.equalityMatrix horizon.layout) k
      = ∑ i : Fin horizon.layout.equalities,
          ∑ col : Fin horizon.layout.primal,
            matrix.entry i col * if col.val = k.val then w i else 0 := by
        rw [Matrix.vecMul, dotProduct]
        refine Finset.sum_congr rfl fun i _ => ?_
        rw [Fintype.sum_eq_single k, if_pos rfl, mul_comm, Data.equalityMatrix,
          Matrix.of_apply, Blocks.entry, found, Option.elim_some]
        intro other differs
        rw [if_neg (Fin.val_ne_of_ne differs), mul_zero]
    _ = _ := made.sum_entry (fun _ _ _ member => triplets_inside member)
          fun row col => if col = k then w row else 0

section Kernel

variable {w : Nat → K} {k j : Nat}

theorem sum_column (stage : k ≤ horizon.stages) (inside : j < horizon.states)
    (later : ∀ row, (k + 1) * horizon.states ≤ row → w row = 0) :
    ((horizon.equalityTriplets model).map fun (row, col, value) =>
      value * if col = horizon.stateIndex k j then w row else 0).sum =
      w (k * horizon.states + j) := by
  rw [sum_equalityTriplets horizon model fun row col =>
    if col = horizon.stateIndex k j then w row else 0]
  have alike {l i : Nat} (member : i ∈ Finset.range horizon.states) :=
    (stateIndex_inj (k := l) (l := k) (Finset.mem_range.mp member) inside).mp
  have own : ∑ l ∈ Finset.range (horizon.stages + 1),
      ∑ i ∈ Finset.range horizon.states,
        (if horizon.stateIndex l i = horizon.stateIndex k j then
          w (l * horizon.states + i) else 0) =
      w (k * horizon.states + j) := by
    rw [Finset.sum_eq_single_of_mem k
      (Finset.mem_range.mpr (Nat.lt_succ_of_le stage)),
      Finset.sum_eq_single_of_mem j (Finset.mem_range.mpr inside), if_pos rfl]
    · intro i member differs
      exact if_neg fun same => differs (alike member same).2
    · intro l _ differs
      refine Finset.sum_eq_zero fun i member => ?_
      exact if_neg fun same => differs (alike member same).1
  rw [own]
  refine add_eq_left.mpr (Finset.sum_eq_zero fun l _ =>
    Finset.sum_eq_zero fun i _ => ?_)
  rw [Finset.sum_eq_zero, Finset.sum_eq_zero, add_zero]
  · intro m member
    rw [if_neg (inputIndex_ne_stateIndex (Finset.mem_range.mp member) inside),
      mul_zero]
  · intro m member
    split
    · next same =>
      rw [(alike member same).1, later _ (Nat.le_add_right ..), mul_zero]
    · exact mul_zero _

theorem eq_zero_of_unseen (has : horizon.HasBlocks model data.blocks)
    (after : ∀ row, horizon.layout.equalities ≤ row → w row = 0)
    (unseen : (fun i : Fin horizon.layout.equalities => w i) ᵥ*
      data.equalityMatrix horizon.layout = 0)
    (left : Nat) : ∀ k, k + left = horizon.stages + 1 →
      ∀ row, k * horizon.states ≤ row → w row = 0 := by
  -- From the last state back to the first; `left` counts those from `k` on.
  induction left with
  | zero =>
      rintro k rfl row beyond
      exact after row beyond
  | succ left ih =>
      intro k here row beyond
      have later := ih (k + 1) (by omega)
      by_cases next : (k + 1) * horizon.states ≤ row
      · exact later row next
      · obtain ⟨j, rfl⟩ := Nat.exists_eq_add_of_le beyond
        have stage : k ≤ horizon.stages := by omega
        have inside : j < horizon.states := by
          rw [Nat.succ_mul] at next
          omega
        rw [← sum_column stage inside later]
        exact (vecMul_equalityMatrix has w
          ⟨_, stateIndex_lt stage inside⟩).symm.trans (congrFun unseen _)

end Kernel

theorem rank_equalityMatrix (has : horizon.HasBlocks model data.blocks) :
    LinearIndependent K (data.equalityMatrix horizon.layout).row := by
  rw [← Matrix.vecMul_injective_iff]
  intro u v same
  obtain ⟨w, extended, after⟩ := exists_extension (u - v)
  have unseen : (fun i : Fin horizon.layout.equalities => w i) ᵥ*
      data.equalityMatrix horizon.layout = 0 := by
    rw [← extended, Matrix.sub_vecMul, sub_eq_zero]
    exact same
  refine sub_eq_zero.mp (extended.trans (funext fun row => ?_))
  refine eq_zero_of_unseen has after unseen (horizon.stages + 1) 0
    (Nat.zero_add _) row ?_
  rw [Nat.zero_mul]
  exact Nat.zero_le _

end QuasiDefinite.Horizon
