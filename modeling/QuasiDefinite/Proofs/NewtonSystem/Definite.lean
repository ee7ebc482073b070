import Mathlib.LinearAlgebra.Matrix.ToLin
import QuasiDefinite.Proofs.Exact.SaddlePoint
import QuasiDefinite.Proofs.NewtonSystem.Convex

namespace QuasiDefinite

open Matrix

variable {K : Type} [ExactField K] {blocks : Blocks K} {data : Data K}
  {system : NewtonSystem K}

namespace Data

def equalityMatrix (data : Data K) (layout : Layout) :
    Matrix (Fin layout.equalities) (Fin layout.primal) K :=
  Matrix.of fun i k => data.blocks.entry .equality i k

/-- The cost is positive definite, the barrier diagonal positive, and the
equalities have full row rank. -/
structure Definite (data : Data K) (layout : Layout) : Prop where
  cost : ∀ x, x ≠ 0 → 0 < quadratic (data.costMatrix layout.primal) x
  barrier : ∀ value ∈ data.barrier, 0 < value
  rank : LinearIndependent K (data.equalityMatrix layout).row

theorem Definite.convex {layout : Layout} (definite : data.Definite layout) :
    data.Convex layout where
  cost x := by
    by_cases none : x = 0
    · rw [none, quadratic, zero_dotProduct]
    · exact (definite.cost x none).le
  barrier value member := (definite.barrier value member).le

end Data

/-- An update of the barrier by positive numbers. -/
def Update.Positive : Update K → Prop
  | .barrier s z => (∀ value ∈ s, 0 < value) ∧ ∀ value ∈ z, 0 < value
  | .diagonal values => ∀ value ∈ values, 0 < value
  | .replace .. => False

theorem Data.take_of_positive (data : Data K) {update : Update K}
    (positive : update.Positive) : (data.take update).blocks = data.blocks ∧
      ∀ value ∈ (data.take update).barrier, 0 < value := by
  cases update with
  | barrier s z =>
      refine ⟨rfl, fun value member => ?_⟩
      obtain ⟨i, inside, rfl⟩ := Array.mem_iff_getElem.mp member
      simp only [take, Array.getElem_zipWith]
      exact div_pos (positive.2 _ (Array.getElem_mem _))
        (positive.1 _ (Array.getElem_mem _))
  | diagonal values => exact ⟨rfl, positive⟩
  | replace block matrix => exact positive.elim

theorem Data.latest_of_positive {layout : Layout} {accepted : List (Update K)}
    (positive : ∀ update ∈ accepted, update.Positive) :
    (latest layout blocks accepted).blocks = blocks ∧
      ∀ value ∈ (latest layout blocks accepted).barrier, 0 < value := by
  induction accepted using List.reverseRecOn with
  | nil =>
      refine ⟨rfl, fun value member => ?_⟩
      rw [(Array.mem_replicate.mp member).2]
      exact zero_lt_one
  | append_singleton accepted update ih =>
      have kept := (ih fun update member =>
        positive update (List.mem_append_left _ member)).1
      have last : update.Positive :=
        positive update (List.mem_append_right _ (List.mem_singleton_self _))
      rw [latest, List.foldl_append]
      obtain ⟨same, barrier⟩ :=
        take_of_positive (latest layout blocks accepted) last
      exact ⟨same.trans kept, barrier⟩

/-! Rows of slacks and of primal variables, where they meet the multipliers. -/

namespace Layout

variable {layout : Layout} {size : Nat} {i j k : Nat}

theorem site_slack_multiplier (inside : i < layout.inequalities)
    (later : layout.inequalityStart ≤ k) :
    layout.site (layout.slackStart + i) k =
      if k = layout.inequalityStart + i then .identity else .empty := by
  rw [site, unknown_eq_s.mpr ⟨rfl, inside⟩]
  cases found : layout.unknown k with
  | x j =>
      obtain ⟨rfl, below⟩ := unknown_eq_x.mp found
      rw [inequalityStart] at later
      omega
  | s j =>
      obtain ⟨rfl, below⟩ := unknown_eq_s.mp found
      rw [inequalityStart, slackStart] at later
      omega
  | z j =>
      obtain ⟨rfl, _⟩ := unknown_eq_z.mp found
      exact if_congr (by omega) rfl rfl
  | y j =>
      obtain rfl := unknown_eq_y.mp found
      rw [if_neg]
      rw [equalityStart, inequalityStart]
      omega

theorem equalityRow_lt (fits : size = layout.size)
    (i : Fin layout.equalities) : layout.equalityStart + i < size := by
  rw [fits, equalityStart, Layout.size]
  omega

def equalityRow (layout : Layout) (fits : size = layout.size)
    (i : Fin layout.equalities) : Fin size :=
  ⟨layout.equalityStart + i, equalityRow_lt fits i⟩

theorem sum_equalityRow (fits : size = layout.size) {term : Fin size → K}
    (zero : ∀ k : Fin size, k.val < layout.equalityStart → term k = 0) :
    ∑ i, term (layout.equalityRow fits i) = ∑ k, term k := by
  have injective : Function.Injective (layout.equalityRow fits) :=
    fun i k same => Fin.ext (Nat.add_left_cancel (Fin.val_eq_of_eq same))
  refine Fintype.sum_of_injective _ injective _ _ (fun k missing => ?_)
    fun _ => rfl
  refine zero k (Nat.lt_of_not_le fun later => missing ?_)
  obtain ⟨i, same⟩ := Nat.exists_eq_add_of_le later
  have inside : k.val < layout.size := Nat.lt_of_lt_of_eq k.isLt fits
  rw [Layout.size, same, equalityStart] at inside
  exact ⟨⟨i, by omega⟩, Fin.ext same.symm⟩

end Layout

namespace NewtonSystem.Tracks

section Forms

variable {x : Fin system.pattern.size → K}

theorem quadratic_pos (tracks : system.Tracks blocks data)
    (definite : data.Definite system.layout)
    (supported : ∀ i : Fin system.pattern.size,
      system.layout.inequalityStart ≤ i.val → x i = 0) (nonzero : x ≠ 0) :
    0 < quadratic (system.pattern.dense system.values) x := by
  have le := tracks.primal_le
  have slacks (i : Fin system.pattern.size) :
      0 ≤ if i.val < system.layout.primal then 0
        else x i * (system.pattern.dense system.values *ᵥ x) i := by
    split
    · exact le_refl 0
    · next later =>
      exact tracks.mul_mulVec_slack definite.convex supported
        (Nat.le_of_not_lt later)
  rw [tracks.quadratic_eq le supported]
  by_cases none : (fun i : Fin system.layout.primal => x (i.castLE le)) = 0
  · -- Then some slack is not zero.
    obtain ⟨i, here⟩ := Function.ne_iff.mp nonzero
    have later : ¬ i.val < system.layout.primal := fun before =>
      here (congrFun none ⟨i, before⟩)
    have last : i.val < system.layout.inequalityStart :=
      Nat.lt_of_not_le fun past => here (supported i past)
    have first : system.layout.slackStart ≤ i.val := Nat.le_of_not_lt later
    refine add_pos_of_nonneg_of_pos (definite.convex.cost _) ?_
    refine Finset.sum_pos' (fun k _ => slacks k) ⟨i, Finset.mem_univ i, ?_⟩
    rw [if_neg later, tracks.mulVec_slack supported first last, mul_left_comm]
    exact mul_pos (definite.barrier _ (tracks.dense_diagonal_mem first last))
      (mul_self_pos.mpr here)
  · exact add_pos_of_pos_of_nonneg (definite.cost _ none)
      (Finset.sum_nonneg fun i _ => slacks i)

theorem mulVec_slack_multiplier (tracks : system.Tracks blocks data)
    (multipliers : ∀ i : Fin system.pattern.size,
      i.val < system.layout.inequalityStart → x i = 0)
    {i k : Fin system.pattern.size} {j : Nat}
    (inside : j < system.layout.inequalities)
    (rowI : i.val = system.layout.slackStart + j)
    (rowK : k.val = system.layout.inequalityStart + j) :
    (system.pattern.dense system.values *ᵥ x) i = x k := by
  have entry (other : Fin system.pattern.size)
      (later : system.layout.inequalityStart ≤ other.val) :
      system.pattern.dense system.values i other =
        if other = k then 1 else 0 := by
    have order : i.val ≤ other.val := by
      rw [rowI]
      simp only [Layout.slackStart, Layout.inequalityStart] at *
      omega
    rw [tracks.dense_apply, Nat.min_eq_left order, Nat.max_eq_right order,
      Data.entry, rowI, Layout.site_slack_multiplier inside later, ← rowK]
    by_cases same : other = k
    · rw [if_pos (Fin.val_eq_of_eq same), if_pos same]
    · rw [if_neg (Fin.val_ne_of_ne same), if_neg same]
  rw [Matrix.mulVec, dotProduct, Fintype.sum_eq_single k]
  · rw [entry k (by omega), if_pos rfl, one_mul]
  · intro other differs
    by_cases before : other.val < system.layout.inequalityStart
    · rw [multipliers other before, mul_zero]
    · rw [entry other (Nat.le_of_not_lt before), if_neg differs, zero_mul]

/-- Once the multipliers of the inequalities are gone, the row of a primal
variable sees the equalities. -/
theorem mulVec_primal_multiplier (tracks : system.Tracks blocks data)
    (none : ∀ i : Fin system.pattern.size,
      i.val < system.layout.equalityStart → x i = 0)
    (i : Fin system.layout.primal) :
    (system.pattern.dense system.values *ᵥ x) (i.castLE tracks.primal_le) =
      ((fun k => x (system.layout.equalityRow tracks.size_pattern k)) ᵥ*
        data.equalityMatrix system.layout) i := by
  rw [Matrix.mulVec, dotProduct, Matrix.vecMul, dotProduct,
    ← Layout.sum_equalityRow tracks.size_pattern]
  · refine Finset.sum_congr rfl fun k _ => ?_
    have order : (i.castLE tracks.primal_le).val ≤
        (system.layout.equalityRow tracks.size_pattern k).val := by
      have := i.isLt
      simp only [Layout.equalityRow, Layout.equalityStart, Fin.val_castLE]
      omega
    have site : system.layout.site (i.castLE tracks.primal_le)
        (system.layout.equalityRow tracks.size_pattern k) =
          .block .equality k i := by
      have row : system.layout.unknown (i.castLE tracks.primal_le) = .x i :=
        Layout.unknown_eq_x.mpr ⟨rfl, i.isLt⟩
      have col : system.layout.unknown
          (system.layout.equalityRow tracks.size_pattern k) = .y k :=
        Layout.unknown_eq_y.mpr rfl
      rw [Layout.site, row, col]
    rw [tracks.dense_apply, Nat.min_eq_left order, Nat.max_eq_right order,
      Data.entry_of_block site, mul_comm]
    rfl
  · intro k before
    rw [none k before, mul_zero]

theorem multipliers_eq_zero (tracks : system.Tracks blocks data)
    (definite : data.Definite system.layout)
    (multipliers : ∀ i : Fin system.pattern.size,
      i.val < system.layout.inequalityStart → x i = 0)
    (unseen : ∀ i : Fin system.pattern.size,
      i.val < system.layout.inequalityStart →
        (system.pattern.dense system.values *ᵥ x) i = 0) : x = 0 := by
  have size_pattern := tracks.size_pattern
  have inequalities (k : Fin system.pattern.size)
      (before : k.val < system.layout.equalityStart) : x k = 0 := by
    by_cases early : k.val < system.layout.inequalityStart
    · exact multipliers k early
    · obtain ⟨j, rowK⟩ := Nat.exists_eq_add_of_le (Nat.le_of_not_lt early)
      have inside : j < system.layout.inequalities := by
        rw [rowK, Layout.equalityStart, Layout.inequalityStart] at before
        omega
      have small : system.layout.slackStart + j <
          system.layout.inequalityStart := by
        rw [Layout.slackStart, Layout.inequalityStart]
        omega
      have fits : system.layout.slackStart + j < system.pattern.size := by
        rw [size_pattern, Layout.size, Layout.slackStart]
        omega
      rw [← tracks.mulVec_slack_multiplier multipliers inside
        (i := ⟨system.layout.slackStart + j, fits⟩) rfl rowK]
      exact unseen _ small
  have equalities : (fun k =>
      x (system.layout.equalityRow size_pattern k)) = 0 := by
    have injective := Matrix.vecMul_injective_iff.mpr definite.rank
    refine injective (Eq.trans ?_ (Matrix.zero_vecMul _).symm)
    funext i
    refine (tracks.mulVec_primal_multiplier inequalities i).symm
      |>.trans (unseen _ (Nat.lt_of_lt_of_le i.isLt ?_))
    exact Nat.le_add_right ..
  funext k
  by_cases before : k.val < system.layout.equalityStart
  · exact inequalities k before
  · obtain ⟨j, rowK⟩ := Nat.exists_eq_add_of_le (Nat.le_of_not_lt before)
    have inside : j < system.layout.equalities := by
      have small := Nat.lt_of_lt_of_eq k.isLt size_pattern
      rw [Layout.size, rowK, Layout.equalityStart] at small
      omega
    have same : system.layout.equalityRow size_pattern ⟨j, inside⟩ = k :=
      Fin.ext rowK.symm
    exact same ▸ congrFun equalities ⟨j, inside⟩

end Forms

theorem saddlePoint (tracks : system.Tracks blocks data)
    (definite : data.Definite system.layout) :
    SaddlePoint (system.pattern.dense system.values)
      (signAt system.signs) where
  first _ _ positive negative :=
    Nat.lt_of_lt_of_le ((tracks.sign_positive_iff _).mp positive)
      (tracks.le_of_sign_negative negative)
  definite _ supported nonzero :=
    tracks.quadratic_pos definite (tracks.supportedOn_positive supported)
      nonzero
  zero _ _ negativeI negativeK :=
    tracks.dense_multipliers (tracks.le_of_sign_negative negativeI)
      (tracks.le_of_sign_negative negativeK)
  independent _ supported unseen :=
    tracks.multipliers_eq_zero definite
      (tracks.supportedOn_negative supported) fun i before =>
        unseen i ((tracks.sign_positive_iff i).mpr before)

end NewtonSystem.Tracks

end QuasiDefinite
