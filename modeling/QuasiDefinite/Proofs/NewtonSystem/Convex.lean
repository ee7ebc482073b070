import QuasiDefinite.Proofs.Exact.Semidefinite
import QuasiDefinite.Proofs.NewtonSystem.Updates

namespace QuasiDefinite

open Matrix

/-! Sites of the two sides. -/

namespace Layout

variable {layout : Layout} {row col : Nat}

theorem site_of_lt_primal (upper : row ≤ col) (inside : col < layout.primal) :
    layout.site row col = .block .cost row col := by
  rw [site, unknown_eq_x.mpr ⟨rfl, Nat.lt_of_le_of_lt upper inside⟩,
    unknown_eq_x.mpr ⟨rfl, inside⟩]
  exact if_pos upper

theorem site_slack_column (above : row < col)
    (first : layout.slackStart ≤ col) (last : col < layout.inequalityStart) :
    layout.site row col = .empty := by
  have slack : layout.unknown col = .s (col - layout.slackStart) := by
    rw [unknown_eq_s]
    simp only [slackStart, inequalityStart] at *
    omega
  rw [site, slack]
  cases found : layout.unknown row with
  | s i =>
      obtain ⟨rfl, _⟩ := unknown_eq_s.mp found
      refine if_neg ?_
      omega
  | x i => rfl
  | z i => rfl
  | y i => rfl

theorem site_multiplier_row (inside : layout.inequalityStart ≤ row) :
    layout.site row col = .empty := by
  rw [site]
  cases found : layout.unknown row with
  | x i =>
      obtain ⟨rfl, below⟩ := unknown_eq_x.mp found
      rw [inequalityStart] at inside
      omega
  | s i =>
      obtain ⟨rfl, below⟩ := unknown_eq_s.mp found
      rw [inequalityStart, slackStart] at inside
      omega
  | z i => rfl
  | y i => rfl

theorem signs_getD {index : Nat} (inside : index < layout.size) :
    layout.signs.getD index default =
      if index < layout.inequalityStart then .positive else .negative := by
  rw [Array.getD_eq_getD_getElem?, signs, Array.getElem?_append,
    Array.size_replicate, Array.getElem?_replicate, Array.getElem?_replicate,
    inequalityStart]
  by_cases before : index < layout.primal + layout.inequalities
  · simp [before]
  · rw [if_neg before, if_neg before, if_pos]
    · rfl
    · rw [size] at inside
      omega

end Layout

variable {K : Type} [ExactField K] {layout : Layout} {blocks : Blocks K}
  {data : Data K} {system : NewtonSystem K}

namespace Data

/-- The symmetric matrix of which the cost gives the upper triangle. -/
def costMatrix (data : Data K) (size : Nat) : Matrix (Fin size) (Fin size) K :=
  Matrix.of fun i k =>
    data.blocks.entry .cost (min i.val k.val) (max i.val k.val)

/-- The cost is positive semidefinite and the barrier diagonal nonnegative. -/
structure Convex (data : Data K) (layout : Layout) : Prop where
  cost : ∀ x, 0 ≤ quadratic (data.costMatrix layout.primal) x
  barrier : ∀ value ∈ data.barrier, 0 ≤ value

end Data

theorem sum_castLE {small large : Nat} (le : small ≤ large)
    {term : Fin large → K}
    (zero : ∀ i : Fin large, small ≤ i.val → term i = 0) :
    ∑ i : Fin small, term (i.castLE le) = ∑ i, term i := by
  refine Fintype.sum_of_injective (Fin.castLE le) (Fin.castLE_injective le) _ _
    (fun i missing => zero i ?_) fun _ => rfl
  refine Nat.le_of_not_lt fun below => missing ?_
  exact ⟨⟨i.val, below⟩, rfl⟩

namespace NewtonSystem.Tracks

theorem dense_apply (tracks : system.Tracks blocks data)
    (i k : Fin system.pattern.size) :
    system.pattern.dense system.values i k =
      data.entry system.layout (min i.val k.val) (max i.val k.val) := by
  have wellFormed := tracks.wellFormed
  rw [Pattern.dense, Matrix.of_apply]
  cases slotted : system.pattern.slot? i k with
  | some slot =>
      have found := wellFormed.slot?_eq_some_iff.mp slotted
      dsimp only
      exact getD_of_getElem? (tracks.shows.held slot _ _ found)
  | none =>
      refine Eq.symm (Decidable.not_not.mp fun nonzero => ?_)
      obtain ⟨slot, found⟩ :=
        List.mem_iff_getElem?.mp (tracks.mem_of_entry_ne_zero nonzero)
      rw [wellFormed.slot?_eq_some_iff.mpr found] at slotted
      cases slotted

theorem dense_multipliers (tracks : system.Tracks blocks data)
    {i k : Fin system.pattern.size}
    (insideI : system.layout.inequalityStart ≤ i.val)
    (insideK : system.layout.inequalityStart ≤ k.val) :
    system.pattern.dense system.values i k = 0 := by
  rw [tracks.dense_apply, Data.entry,
    Layout.site_multiplier_row (Nat.le_min.mpr ⟨insideI, insideK⟩)]

/-- The row of a slack holds nothing but its diagonal, multipliers apart. -/
theorem dense_slack (tracks : system.Tracks blocks data)
    {i k : Fin system.pattern.size} (differs : i ≠ k)
    (first : system.layout.slackStart ≤ i.val)
    (lastI : i.val < system.layout.inequalityStart)
    (lastK : k.val < system.layout.inequalityStart) :
    system.pattern.dense system.values i k = 0 := by
  have differs := Fin.val_ne_of_ne differs
  rw [tracks.dense_apply, Data.entry, Layout.site_slack_column (by omega)
    (Nat.le_trans first (Nat.le_max_left ..)) (Nat.max_lt.mpr ⟨lastI, lastK⟩)]

theorem dense_diagonal_mem (tracks : system.Tracks blocks data)
    {i : Fin system.pattern.size} (first : system.layout.slackStart ≤ i.val)
    (last : i.val < system.layout.inequalityStart) :
    system.pattern.dense system.values i i ∈ data.barrier := by
  have site : system.layout.site i i =
      .barrier (i.val - system.layout.slackStart) := by
    rw [Layout.site_eq_barrier_iff]
    simp only [Layout.slackStart, Layout.inequalityStart] at *
    omega
  have inside : i.val - system.layout.slackStart < data.barrier.size := by
    rw [tracks.size_barrier]
    exact (Layout.site_eq_barrier_iff.mp site).1
  rw [tracks.dense_apply, Nat.min_self, Nat.max_self,
    Data.entry_of_barrier site, ← Array.getElem_eq_getD (h := inside)]
  exact Array.getElem_mem inside

theorem dense_primal (tracks : system.Tracks blocks data)
    {i k : Fin system.pattern.size} (insideI : i.val < system.layout.primal)
    (insideK : k.val < system.layout.primal) :
    system.pattern.dense system.values i k =
      data.costMatrix system.layout.primal ⟨i, insideI⟩ ⟨k, insideK⟩ := by
  rw [tracks.dense_apply, Data.entry_of_block (Layout.site_of_lt_primal
    (Nat.le_trans (Nat.min_le_left ..) (Nat.le_max_left ..))
    (Nat.max_lt.mpr ⟨insideI, insideK⟩))]
  rfl

section Forms

variable {x : Fin system.pattern.size → K}

theorem quadratic_multipliers (tracks : system.Tracks blocks data)
    (supported : ∀ i : Fin system.pattern.size,
      i.val < system.layout.inequalityStart → x i = 0) :
    quadratic (system.pattern.dense system.values) x = 0 := by
  rw [quadratic, dotProduct]
  refine Finset.sum_eq_zero fun i _ => ?_
  by_cases beforeI : i.val < system.layout.inequalityStart
  · rw [supported i beforeI, zero_mul]
  · rw [Matrix.mulVec, dotProduct, Finset.sum_eq_zero, mul_zero]
    intro k _
    by_cases beforeK : k.val < system.layout.inequalityStart
    · rw [supported k beforeK, mul_zero]
    · rw [tracks.dense_multipliers (Nat.le_of_not_lt beforeI)
        (Nat.le_of_not_lt beforeK), zero_mul]

theorem mulVec_primal (tracks : system.Tracks blocks data)
    (le : system.layout.primal ≤ system.pattern.size)
    (supported : ∀ i : Fin system.pattern.size,
      system.layout.inequalityStart ≤ i.val → x i = 0)
    (i : Fin system.layout.primal) :
    (system.pattern.dense system.values *ᵥ x) (i.castLE le) =
      (data.costMatrix system.layout.primal *ᵥ fun k => x (k.castLE le))
        i := by
  rw [Matrix.mulVec, Matrix.mulVec, dotProduct, dotProduct, ← sum_castLE le]
  · refine Finset.sum_congr rfl fun k _ => ?_
    rw [tracks.dense_primal (i := i.castLE le) (k := k.castLE le) i.isLt k.isLt]
    rfl
  · intro k later
    by_cases slack : k.val < system.layout.inequalityStart
    · have small : (i.castLE le).val < k.val := Nat.lt_of_lt_of_le i.isLt later
      rw [← (system.pattern.dense_isSymm system.values).apply,
        tracks.dense_slack (Fin.ne_of_gt small) later slack
          (Nat.lt_trans small slack), zero_mul]
    · rw [supported k (Nat.le_of_not_lt slack), mul_zero]

theorem mulVec_slack (tracks : system.Tracks blocks data)
    (supported : ∀ i : Fin system.pattern.size,
      system.layout.inequalityStart ≤ i.val → x i = 0)
    {i : Fin system.pattern.size} (first : system.layout.slackStart ≤ i.val)
    (last : i.val < system.layout.inequalityStart) :
    (system.pattern.dense system.values *ᵥ x) i =
      system.pattern.dense system.values i i * x i := by
  rw [Matrix.mulVec, dotProduct]
  refine Fintype.sum_eq_single i fun k differs => ?_
  by_cases before : k.val < system.layout.inequalityStart
  · rw [tracks.dense_slack differs.symm first last before, zero_mul]
  · rw [supported k (Nat.le_of_not_lt before), mul_zero]

theorem mul_mulVec_slack (tracks : system.Tracks blocks data)
    (convex : data.Convex system.layout)
    (supported : ∀ i : Fin system.pattern.size,
      system.layout.inequalityStart ≤ i.val → x i = 0)
    {i : Fin system.pattern.size} (first : system.layout.slackStart ≤ i.val) :
    0 ≤ x i * (system.pattern.dense system.values *ᵥ x) i := by
  by_cases slack : i.val < system.layout.inequalityStart
  · rw [tracks.mulVec_slack supported first slack, mul_left_comm]
    exact mul_nonneg (convex.barrier _ (tracks.dense_diagonal_mem first slack))
      (mul_self_nonneg (x i))
  · rw [supported i (Nat.le_of_not_lt slack), zero_mul]

theorem quadratic_eq (tracks : system.Tracks blocks data)
    (le : system.layout.primal ≤ system.pattern.size)
    (supported : ∀ i : Fin system.pattern.size,
      system.layout.inequalityStart ≤ i.val → x i = 0) :
    quadratic (system.pattern.dense system.values) x =
      quadratic (data.costMatrix system.layout.primal)
          (fun i => x (i.castLE le)) +
        ∑ i, if i.val < system.layout.primal then 0
          else x i * (system.pattern.dense system.values *ᵥ x) i := by
  let term (i : Fin system.pattern.size) : K :=
    x i * (system.pattern.dense system.values *ᵥ x) i
  have split : quadratic (system.pattern.dense system.values) x =
      (∑ i, if i.val < system.layout.primal then term i else 0) +
        ∑ i, if i.val < system.layout.primal then 0 else term i := by
    rw [quadratic, dotProduct, ← Finset.sum_add_distrib]
    refine Finset.sum_congr rfl fun i _ => ?_
    split
    · exact (add_zero _).symm
    · exact (zero_add _).symm
  rw [split, ← sum_castLE le fun i later => if_neg (Nat.not_lt.mpr later)]
  congr 1
  refine Finset.sum_congr rfl fun i _ => ?_
  have small : (i.castLE le).val < system.layout.primal := i.isLt
  rw [if_pos small]
  exact congrArg (x (i.castLE le) * ·) (tracks.mulVec_primal le supported i)

theorem primal_le (tracks : system.Tracks blocks data) :
    system.layout.primal ≤ system.pattern.size := by
  rw [tracks.size_pattern, Layout.size]
  omega

theorem quadratic_nonneg (tracks : system.Tracks blocks data)
    (convex : data.Convex system.layout)
    (supported : ∀ i : Fin system.pattern.size,
      system.layout.inequalityStart ≤ i.val → x i = 0) :
    0 ≤ quadratic (system.pattern.dense system.values) x := by
  rw [tracks.quadratic_eq tracks.primal_le supported]
  refine add_nonneg (convex.cost _) (Finset.sum_nonneg fun i _ => ?_)
  split
  · exact le_refl 0
  · next later =>
    exact tracks.mul_mulVec_slack convex supported (Nat.le_of_not_lt later)

end Forms

theorem sign_positive_iff (tracks : system.Tracks blocks data)
    (i : Fin system.pattern.size) : signAt system.signs i = .positive ↔
      i.val < system.layout.inequalityStart := by
  have sign : signAt system.signs i = _ :=
    Layout.signs_getD (by rw [← tracks.size_pattern]; exact i.isLt)
  rw [sign]
  split
  · next before => exact iff_of_true rfl before
  · next later => exact iff_of_false (by decide) later

theorem le_of_sign_negative (tracks : system.Tracks blocks data)
    {i : Fin system.pattern.size}
    (negative : signAt system.signs i = .negative) :
    system.layout.inequalityStart ≤ i.val := by
  refine Nat.le_of_not_lt fun before => ?_
  rw [(tracks.sign_positive_iff i).mpr before] at negative
  cases negative

theorem supportedOn_positive (tracks : system.Tracks blocks data)
    {x : Fin system.pattern.size → K}
    (supported : SupportedOn (signAt system.signs) .positive x)
    (i : Fin system.pattern.size)
    (later : system.layout.inequalityStart ≤ i.val) : x i = 0 := by
  refine supported i fun positive => ?_
  exact Nat.not_le.mpr ((tracks.sign_positive_iff i).mp positive) later

theorem supportedOn_negative (tracks : system.Tracks blocks data)
    {x : Fin system.pattern.size → K}
    (supported : SupportedOn (signAt system.signs) .negative x)
    (i : Fin system.pattern.size)
    (before : i.val < system.layout.inequalityStart) : x i = 0 :=
  supported i fun negative =>
    Nat.not_le.mpr before (tracks.le_of_sign_negative negative)

theorem quasiSemidefinite (tracks : system.Tracks blocks data)
    (convex : data.Convex system.layout) :
    QuasiSemidefinite (system.pattern.dense system.values)
      (signAt system.signs) := by
  rw [quasiSemidefinite_iff]
  intro side x supported
  cases side with
  | positive =>
      rw [Sign.value, one_mul]
      exact tracks.quadratic_nonneg convex
        (tracks.supportedOn_positive supported)
  | negative =>
      rw [tracks.quadratic_multipliers (tracks.supportedOn_negative supported),
        mul_zero]

end NewtonSystem.Tracks

namespace NewtonSystem

/-- With a static shift above the threshold for lifting, a quasi-semidefinite
matrix is factored as it was shifted, in every order of elimination. So is the
system of a convex problem, at every stage of its updates. -/
theorem factorize_neverLifts {settings : Settings K}
    (validated : settings.validate = .ok ())
    (small : settings.dynamicEps < settings.staticReg) :
    (∀ (pattern : Pattern) (signs : Array Sign) (values : Array K),
      pattern.Constructed → signs.size = pattern.size →
      values.size = pattern.slotCount →
      QuasiSemidefinite (pattern.dense values) (signAt signs) →
      Factor.NeverLifts pattern signs settings values) ∧
    ∀ (layout : Layout) (blocks : Blocks K) (system : NewtonSystem K)
      (events : List (Event K)), blocks.WellFormed →
      assemble layout blocks = .ok (system, events) →
      ∀ updates final accepted,
        system.afterUpdates updates = (final, accepted) →
        (Data.latest layout blocks accepted).Convex layout →
        Factor.NeverLifts final.pattern final.signs settings final.values := by
  constructor
  · intro pattern signs values constructed signs_size values_size semidefinite
    exact Factor.neverLifts constructed signs_size values_size validated small
      semidefinite
  · intro layout blocks system events wellFormed ran updates final accepted
      after convex
    obtain ⟨rfl, follows⟩ := follows_of_assemble wellFormed ran updates
    rw [after] at follows
    have tracks := follows.tracks
    rw [← follows.layout_eq] at convex tracks
    refine Factor.neverLifts tracks.constructed ?_ tracks.shows.size_values
      validated small (tracks.quasiSemidefinite convex)
    rw [signs, Layout.size_signs, tracks.size_pattern]

def sampleData : Data ℚ :=
  .latest ⟨2, 1, 1⟩ sampleBlocks
    (sampleUpdates.filter (Update.suits ⟨2, 1, 1⟩ sampleBlocks))

theorem quadratic_sampleData (x : Fin 2 → ℚ) :
    quadratic (sampleData.costMatrix 2) x =
      7 / 4 * x 0 ^ 2 + (x 0 / 2 + x 1) ^ 2 := by
  have first : sampleData.costMatrix 2 0 0 = 2 := by decide +kernel
  have upper : sampleData.costMatrix 2 0 1 = 1 / 2 := by decide +kernel
  have lower : sampleData.costMatrix 2 1 0 = 1 / 2 := by decide +kernel
  have last : sampleData.costMatrix 2 1 1 = 1 := by decide +kernel
  simp only [quadratic, dotProduct, Matrix.mulVec, Fin.sum_univ_two, first,
    upper, lower, last]
  ring

theorem convex_sampleData : sampleData.Convex ⟨2, 1, 1⟩ := by
  constructor
  · intro x
    rw [quadratic_sampleData]
    positivity
  · decide +kernel

theorem factorize_neverLifts_sample : ∃ system events final accepted,
    assemble ⟨2, 1, 1⟩ sampleBlocks = .ok (system, events) ∧
      system.afterUpdates sampleUpdates = (final, accepted) ∧
      (Data.latest ⟨2, 1, 1⟩ sampleBlocks accepted).Convex ⟨2, 1, 1⟩ ∧
      ∃ plan, Plan.make final.pattern final.signs
          (.supplied #[4, 0, 3, 1, 2]) = .ok (.ok plan) ∧
        ∃ new, Factor.factorize plan
            ⟨.natural, 1 / 10, 1 / 1000, 1 / 100, 1, true, 0, 3⟩ final.values
            (Factor.fresh plan) = .ok ⟨.ok new.summary, new, []⟩ ∧
          new.Unlifted plan final.pattern final.signs
            ⟨.natural, 1 / 10, 1 / 1000, 1 / 100, 1, true, 0, 3⟩
            final.values := by
  obtain ⟨system, events, ran, _⟩ :=
    assemble_runs wellFormed_sampleBlocks shaped_sampleBlocks
  obtain ⟨layout_eq, follows⟩ :=
    follows_of_assemble wellFormed_sampleBlocks ran sampleUpdates
  obtain ⟨⟨final, accepted⟩, updated⟩ :
      ∃ state, system.afterUpdates sampleUpdates = state := ⟨_, rfl⟩
  rw [updated] at follows
  have convex := convex_sampleData
  rw [sampleData, ← layout_eq, ← follows.accepted_eq, layout_eq] at convex
  have never := (@factorize_neverLifts ℚ _
    ⟨.natural, 1 / 10, 1 / 1000, 1 / 100, 1, true, 0, 3⟩
    (by decide +kernel) (by decide +kernel)).2 ⟨2, 1, 1⟩ sampleBlocks system
    events wellFormed_sampleBlocks ran sampleUpdates final accepted updated
    convex
  obtain ⟨plan, made, _, after⟩ := never (.supplied #[4, 0, 3, 1, 2]) (by
    rw [follows.tracks.size_pattern, follows.layout_eq, layout_eq,
      OrderRule.listing]
    decide)
  obtain ⟨factor, fresh, new, replied, unlifted⟩ := after []
  cases fresh
  exact ⟨system, events, final, accepted, ran, updated, convex, plan, made,
    new, replied, unlifted⟩

end NewtonSystem

end QuasiDefinite
