import Mathlib.Algebra.BigOperators.Fin
import QuasiDefinite.Proofs.Exact.Dense
import QuasiDefinite.Proofs.Factor.History

namespace QuasiDefinite

open Matrix

theorem countP_finRange {size : Nat} (chosen : Fin size → Bool) :
    (List.finRange size).countP chosen =
      (Finset.univ.filter fun k => chosen k = true).card := by
  rw [List.countP_eq_length_filter,
    ← List.toFinset_card_of_nodup ((List.nodup_finRange size).filter _)]
  congr 1
  ext k
  simp

theorem Factor.pivotsOf_eq {α : Type} {plan : Plan} {pattern : Pattern}
    {signs : Array Sign} {numbers : Numbers α}
    (regular : plan.Regular pattern signs) :
    pivotsOf plan numbers = (List.finRange pattern.size).map
      fun k : Fin pattern.size => numbers.pivot k.val := by
  rw [pivotsOf, regular.size_eq]
  conv => lhs; rw [← List.map_coe_finRange_eq_range]
  exact List.map_map

variable {K : Type} [ExactField K]

/-- The arrays hold `L` and `D` with `L * D * L^T` the matrix in elimination
order, its diagonal shifted by the static regularization and by `moves`, the
distances by which pivots were lifted. -/
structure Factor.Decomposes (factor : Factor K) (plan : Plan)
    (pattern : Pattern) (signs : Array Sign) (settings : Settings K)
    (values : Array K) (moves : Fin pattern.size → K) : Prop where
  diagonal : ∀ k, factor.unitLower plan pattern.size k k = 1
  upper : ∀ i k, i < k → factor.unitLower plan pattern.size i k = 0
  outside : ∀ i k : Fin pattern.size, k < i → k.val ∉ plan.rowColumns i →
    factor.unitLower plan pattern.size i k = 0
  product : factor.unitLower plan pattern.size *
      Matrix.diagonal (fun k : Fin pattern.size => factor.pivotAt k) *
      (factor.unitLower plan pattern.size)ᵀ =
    permutationMatrix K pattern.size plan.order.order *
      pattern.dense values *
      (permutationMatrix K pattern.size plan.order.order)ᵀ +
    settings.staticReg • Matrix.diagonal
      (fun k : Fin pattern.size => sideAt signs plan.order.order k) +
    Matrix.diagonal moves
  sides : ∀ k : Fin pattern.size,
    0 < sideAt signs plan.order.order k * factor.pivotAt k
  kept : ∀ k : Fin pattern.size, settings.dynamicEps <
      sideAt signs plan.order.order k * (factor.pivotAt k - moves k) →
    moves k = 0
  lifted : ∀ k : Fin pattern.size,
    sideAt signs plan.order.order k * (factor.pivotAt k - moves k) ≤
      settings.dynamicEps →
    factor.pivotAt k = sideAt signs plan.order.order k *
      max |factor.pivotAt k - moves k| settings.dynamicDelta

/-- The summary counts the lifted pivots, adds up their moves and knows the
least and the greatest magnitude. -/
structure Summary.Accounts (summary : Summary K) (settings : Settings K)
    {size : Nat} (side pivot moves : Fin size → K) : Prop where
  lifted : summary.lifted = (Finset.univ.filter fun k =>
    side k * (pivot k - moves k) ≤ settings.dynamicEps).card
  magnitude : summary.magnitude = ∑ k, |moves k|
  staticReg : summary.staticReg = settings.staticReg
  least : 0 < size → IsLeast (Set.range fun k => |pivot k|) summary.leastPivot
  greatest : 0 < size →
    IsGreatest (Set.range fun k => |pivot k|) summary.greatestPivot
  warning : summary.warning =
    if settings.warnThreshold < summary.magnitude then
      some ⟨summary.magnitude, summary.lifted, settings.warnThreshold⟩
    else none

variable {plan : Plan} {pattern : Pattern} {signs : Array Sign}
  {rule : OrderRule} {settings : Settings K} {values : Array K}
  {factor : Factor K} {numbers : Numbers K}

/-- The distances by which pivots were lifted. -/
def Numbers.move (numbers : Numbers K) (k : Nat) : K :=
  (numbers.pivot k).kept - (numbers.pivot k).raw

namespace Factor.Holds

theorem sign_eq (regular : plan.Regular pattern signs)
    (signs_size : signs.size = pattern.size) {k : Nat}
    (inside : k < plan.size) :
    ∃ sign, plan.signs[k]? = some sign ∧
      (sideAt signs plan.order.order k : K) = sign.value := by
  rw [regular.size_eq] at inside
  obtain ⟨index, small, found, _⟩ := regular.valid.exists_order inside
  have signed : signs[index]? = some signs[index] :=
    Array.getElem?_eq_getElem (signs_size ▸ small)
  refine ⟨_, (regular.signs k index found).trans signed, ?_⟩
  simp [sideAt, Array.getD_eq_getD_getElem?, found, signed]

theorem pivot_eq (holds : factor.Holds plan settings values numbers)
    {k : Nat} (inside : k < plan.size) {sign : Sign}
    (signed : plan.signs[k]? = some sign) :
    numbers.pivot k =
      .regularize settings sign (numbers.pivot k).raw := by
  have pivot := holds.solves.pivot k sign inside signed
  conv => rhs; rw [pivot, Pivot.raw_regularize]
  exact pivot

theorem kept_ne_zero (regular : plan.Regular pattern signs)
    (signs_size : signs.size = pattern.size)
    (validated : settings.validate = .ok ())
    (holds : factor.Holds plan settings values numbers) (k : Nat)
    (inside : k < plan.size) : (numbers.pivot k).kept ≠ 0 := by
  obtain ⟨sign, signed, _⟩ := sign_eq (K := K) regular signs_size inside
  rw [holds.pivot_eq inside signed]
  exact Pivot.kept_ne_zero validated

theorem sum_unit_eq (regular : plan.Regular pattern signs)
    (signs_size : signs.size = pattern.size)
    (validated : settings.validate = .ok ())
    (holds : factor.Holds plan settings values numbers) {i k : Nat}
    (insideI : i < plan.size) (insideK : k < plan.size) :
    ∑ j ∈ Finset.range plan.size, numbers.unit plan i j *
        ((numbers.pivot j).kept * numbers.unit plan k j) =
      plan.valueAt factor.matrix i k +
        if i = k then settings.staticReg * sideAt signs plan.order.order k +
          numbers.move k
        else 0 := by
  have nonzero := holds.kept_ne_zero regular signs_size validated
  rcases Nat.lt_trichotomy i k with below | rfl | above
  · rw [Numbers.product_below regular holds.solves nonzero below insideK,
      if_neg (Nat.ne_of_lt below), add_zero]
  · obtain ⟨sign, signed, side⟩ := sign_eq (K := K) regular signs_size insideI
    rw [Numbers.product_diagonal regular holds.solves nonzero insideI signed,
      if_pos rfl, side, Numbers.move]
    ring
  · have swapped : ∑ j ∈ Finset.range plan.size, numbers.unit plan i j *
        ((numbers.pivot j).kept * numbers.unit plan k j) =
        ∑ j ∈ Finset.range plan.size, numbers.unit plan k j *
          ((numbers.pivot j).kept * numbers.unit plan i j) := by
      apply Finset.sum_congr rfl
      intro j _
      ring
    rw [swapped,
      Numbers.product_below regular holds.solves nonzero above insideI,
      if_neg (Nat.ne_of_gt above), add_zero, Plan.valueAt_comm]

theorem product_apply (regular : plan.Regular pattern signs)
    (holds : factor.Holds plan settings values numbers)
    (i k : Fin pattern.size) :
    (factor.unitLower plan pattern.size *
      Matrix.diagonal (fun k : Fin pattern.size => factor.pivotAt k) *
      (factor.unitLower plan pattern.size)ᵀ) i k =
    ∑ j ∈ Finset.range plan.size, numbers.unit plan i j *
      ((numbers.pivot j).kept * numbers.unit plan k j) := by
  rw [regular.size_eq, Finset.sum_range, Matrix.mul_apply]
  apply Finset.sum_congr rfl
  intro j _
  have inside : j.val < plan.size := by
    rw [regular.size_eq]
    exact j.isLt
  rw [Matrix.mul_diagonal, Matrix.transpose_apply,
    holds.unitLower_apply regular, holds.unitLower_apply regular,
    holds.pivotAt_eq inside, mul_assoc]

theorem product_eq (regular : plan.Regular pattern signs)
    (signs_size : signs.size = pattern.size)
    (validated : settings.validate = .ok ())
    (holds : factor.Holds plan settings values numbers) :
    factor.unitLower plan pattern.size *
        Matrix.diagonal (fun k : Fin pattern.size => factor.pivotAt k) *
        (factor.unitLower plan pattern.size)ᵀ =
      permutationMatrix K pattern.size plan.order.order *
        pattern.dense values *
        (permutationMatrix K pattern.size plan.order.order)ᵀ +
      settings.staticReg • Matrix.diagonal
        (fun k : Fin pattern.size => sideAt signs plan.order.order k) +
      Matrix.diagonal (fun k : Fin pattern.size => numbers.move k) := by
  ext i k
  have inside : ∀ k : Fin pattern.size, k.val < plan.size := by
    intro k
    rw [regular.size_eq]
    exact k.isLt
  obtain ⟨p, smallP, foundRow, _⟩ := regular.valid.exists_order i.isLt
  obtain ⟨q, smallQ, foundCol, _⟩ := regular.valid.exists_order k.isLt
  have entry : pattern.dense values ⟨p, smallP⟩ ⟨q, smallQ⟩ =
      plan.valueAt factor.matrix i k :=
    holds.dense_eq regular foundRow foundCol
  have moved : (permutationMatrix K pattern.size plan.order.order *
      pattern.dense values *
      (permutationMatrix K pattern.size plan.order.order)ᵀ) i k =
      plan.valueAt factor.matrix i k :=
    (permutationMatrix_mul_apply _ foundRow foundCol).trans entry
  rw [holds.product_apply regular,
    holds.sum_unit_eq regular signs_size validated (inside i) (inside k),
    Matrix.add_apply, Matrix.add_apply, moved, Matrix.smul_apply, smul_eq_mul,
    add_assoc]
  congr 1
  by_cases same : i = k
  · subst same
    rw [if_pos rfl, Matrix.diagonal_apply_eq, Matrix.diagonal_apply_eq]
  · rw [if_neg (Fin.val_ne_of_ne same), Matrix.diagonal_apply_ne _ same,
      Matrix.diagonal_apply_ne _ same, mul_zero, add_zero]

theorem exists_side (regular : plan.Regular pattern signs)
    (signs_size : signs.size = pattern.size)
    (holds : factor.Holds plan settings values numbers)
    (k : Fin pattern.size) :
    ∃ sign : Sign, (sideAt signs plan.order.order k : K) = sign.value ∧
      factor.pivotAt k = (numbers.pivot k).kept ∧
      factor.pivotAt k - numbers.move k = (numbers.pivot k).raw ∧
      numbers.pivot k = .regularize settings sign (numbers.pivot k).raw := by
  have inside : k.val < plan.size := by
    rw [regular.size_eq]
    exact k.isLt
  obtain ⟨sign, signed, side⟩ := sign_eq (K := K) regular signs_size inside
  have pivot := holds.pivotAt_eq inside
  refine ⟨sign, side, pivot, ?_, holds.pivot_eq inside signed⟩
  rw [pivot, Numbers.move, sub_sub_cancel]

theorem decomposes (regular : plan.Regular pattern signs)
    (signs_size : signs.size = pattern.size)
    (validated : settings.validate = .ok ())
    (holds : factor.Holds plan settings values numbers) :
    factor.Decomposes plan pattern signs settings values
      fun k => numbers.move k where
  diagonal k := by
    rw [holds.unitLower_apply regular, Numbers.unit_self]
  upper := by
    intro i k below
    rw [holds.unitLower_apply regular]
    refine Numbers.unit_of_notMem (Nat.ne_of_lt below) fun member => ?_
    exact Nat.lt_asymm below (regular.lt_of_mem member).1
  outside := by
    intro i k above absent
    rw [holds.unitLower_apply regular]
    exact Numbers.unit_of_notMem (Nat.ne_of_gt above) absent
  product := holds.product_eq regular signs_size validated
  sides := by
    intro k
    obtain ⟨sign, side, pivot, _, regularized⟩ :=
      holds.exists_side regular signs_size k
    rw [side, pivot, regularized]
    exact Pivot.value_mul_kept_pos validated
  kept := by
    intro k clear
    obtain ⟨sign, side, _, raw, regularized⟩ :=
      holds.exists_side regular signs_size k
    rw [raw, side] at clear
    rw [Numbers.move, regularized, Pivot.regularize_of_lt clear, sub_self]
  lifted := by
    intro k small
    obtain ⟨sign, side, pivot, raw, regularized⟩ :=
      holds.exists_side regular signs_size k
    rw [raw, side] at small
    rw [raw, side, pivot]
    conv => lhs; rw [regularized, Pivot.regularize_of_le small]

theorem range_magnitude (regular : plan.Regular pattern signs)
    (holds : factor.Holds plan settings values numbers) :
    (Set.range fun k : Fin pattern.size => |factor.pivotAt k|) =
      {value | value ∈ Summary.magnitudes (pivotsOf plan numbers)} := by
  ext value
  rw [Set.mem_range, Set.mem_ofPred_eq, Summary.magnitudes,
    pivotsOf_eq regular, List.map_map, List.mem_map]
  apply exists_congr
  intro k
  have inside : k.val < plan.size := by
    rw [regular.size_eq]
    exact k.isLt
  rw [holds.pivotAt_eq inside]
  simp

theorem accounts (regular : plan.Regular pattern signs)
    (signs_size : signs.size = pattern.size)
    (holds : factor.Holds plan settings values numbers) :
    factor.summary.Accounts settings
      (fun k : Fin pattern.size => sideAt signs plan.order.order k)
      (fun k => factor.pivotAt k) fun k => numbers.move k := by
  have nonempty : 0 < pattern.size → pivotsOf plan numbers ≠ [] := by
    intro positive empty
    have length := congrArg List.length empty
    rw [pivotsOf, List.length_map, List.length_range, regular.size_eq] at length
    exact Nat.ne_of_gt positive length
  rw [holds.summary]
  refine ⟨?_, ?_, rfl, ?_, ?_, ?_⟩
  · change (pivotsOf plan numbers).countP Pivot.lifted = _
    rw [pivotsOf_eq regular, List.countP_map, countP_finRange]
    congr 1
    apply Finset.filter_congr
    intro k _
    obtain ⟨sign, side, _, raw, regularized⟩ :=
      holds.exists_side regular signs_size k
    rw [Function.comp, raw, side, regularized, Pivot.lifted_regularize,
      Pivot.raw_regularize, decide_eq_true_eq]
  · have kept : ∀ pivot ∈ pivotsOf plan numbers,
        pivot.lifted = false → pivot.kept = pivot.raw := by
      rw [pivotsOf_eq regular]
      rintro _ member clear
      obtain ⟨k, _, rfl⟩ := List.mem_map.mp member
      obtain ⟨sign, _, _, _, regularized⟩ :=
        holds.exists_side regular signs_size k
      rw [regularized, Pivot.lifted_regularize, decide_eq_false_iff_not,
        not_le] at clear
      rw [regularized, Pivot.regularize_of_lt clear]
    change Summary.totalMove (pivotsOf plan numbers) = _
    rw [Summary.totalMove_eq kept, pivotsOf_eq regular, List.map_map,
      Fin.sum_univ_def]
    rfl
  · intro positive
    rw [holds.range_magnitude regular]
    exact Summary.isLeast_leastMagnitude (nonempty positive)
  · intro positive
    rw [holds.range_magnitude regular]
    exact Summary.isGreatest_greatestMagnitude (nonempty positive)
  · simp [Summary.ofPivots]

end Factor.Holds

theorem Factor.rejected_exact (settings : Settings K) (values : Array K) :
    rejected settings values = none := by
  rw [rejected]
  split
  · rw [Array.findIdx?_eq_none_iff]
    simp
  · rfl

/-- Every value array of the right length is factored, after any history of
calls, and what is returned accounts for how the matrix was shifted. -/
theorem Factor.factorize_decomposes (constructed : pattern.Constructed)
    (signs_size : signs.size = pattern.size)
    (perm : (rule.listing pattern).toList.Perm (List.range pattern.size))
    (validated : settings.validate = .ok ())
    (values_size : values.size = pattern.slotCount) :
    ∃ plan, Plan.make pattern signs rule = .ok (.ok plan) ∧
      plan.order.order = rule.listing pattern ∧
      ∀ history, ∃ factor, replay plan history = .ok factor ∧
        ∃ (new : Factor K) (events : List (Event K))
          (moves : Fin pattern.size → K),
          factorize plan settings values factor =
            .ok ⟨.ok new.summary, new, events⟩ ∧
          new.Decomposes plan pattern signs settings values moves ∧
          new.summary.Accounts settings
            (fun k : Fin pattern.size => sideAt signs plan.order.order k)
            (fun k => new.pivotAt k) moves := by
  obtain ⟨plan, made, regular, listed⟩ :=
    Plan.make_runs constructed signs_size perm
  refine ⟨plan, made, listed, fun history => ?_⟩
  obtain ⟨factor, ran, fits⟩ := replay_fits regular history
  have count : values.size = plan.matrixCount :=
    values_size.trans regular.relabels.slotCount_eq.symm
  obtain ⟨new, numbers, replied, holds⟩ :=
    factorize_runs regular fits count (rejected_exact settings values)
  exact ⟨factor, ran, new, _, _, replied,
    holds.decomposes regular signs_size validated,
    holds.accounts regular signs_size⟩

/-- An arrow whose head is eliminated second, so that its factor fills up. Its
second pivot is zero and has to be lifted. -/
theorem Factor.factorize_decomposes_arrow :
    ∃ plan : Plan,
      Plan.make ⟨4, ⟨#[0, 1, 3, 5, 7], #[0, 0, 1, 0, 2, 0, 3]⟩⟩
        #[.positive, .negative, .positive, .negative]
        (.supplied #[2, 0, 3, 1]) = .ok (.ok plan) ∧
      ∃ (new : Factor ℚ) (events : List (Event ℚ)) (moves : Fin 4 → ℚ),
        factorize plan
          ⟨.natural, 1 / 10, 1 / 1000, 1 / 100, 1, true, 0, 3⟩
          #[1 / 2, 1, -3, 1, 2, 1, -3] (fresh plan) =
            .ok ⟨.ok new.summary, new, events⟩ ∧
        new.Decomposes plan ⟨4, ⟨#[0, 1, 3, 5, 7], #[0, 0, 1, 0, 2, 0, 3]⟩⟩
          #[.positive, .negative, .positive, .negative]
          ⟨.natural, 1 / 10, 1 / 1000, 1 / 100, 1, true, 0, 3⟩
          #[1 / 2, 1, -3, 1, 2, 1, -3] moves := by
  obtain ⟨plan, made, _, after⟩ := @Factor.factorize_decomposes ℚ _
    ⟨4, ⟨#[0, 1, 3, 5, 7], #[0, 0, 1, 0, 2, 0, 3]⟩⟩
    #[.positive, .negative, .positive, .negative]
    (.supplied #[2, 0, 3, 1])
    ⟨.natural, 1 / 10, 1 / 1000, 1 / 100, 1, true, 0, 3⟩
    #[1 / 2, 1, -3, 1, 2, 1, -3]
    (.upper (by cbv : Pattern.ofUpperEntries 4 [(0, 1), (0, 2), (0, 3)] =
      .ok ⟨4, ⟨#[0, 1, 3, 5, 7], #[0, 0, 1, 0, 2, 0, 3]⟩⟩))
    rfl (by decide)
    (by decide +kernel) rfl
  obtain ⟨factor, ran, new, events, moves, replied, decomposes, _⟩ := after []
  cases ran
  exact ⟨plan, made, new, events, moves, replied, decomposes⟩

end QuasiDefinite
