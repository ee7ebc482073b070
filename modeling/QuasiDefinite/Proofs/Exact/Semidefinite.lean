import QuasiDefinite.Proofs.Exact.Solve

/-!
Quasi-semidefinite matrices. On the rows of positive sign such a matrix is
positive semidefinite, on those of negative sign negative semidefinite. However
these rows are interleaved, each pivot of the shifted matrix lies as far from
zero as the shift (`shift_le_pivot`), so that no pivot has to be lifted
(`Factor.unlifted`).
-/

namespace QuasiDefinite

open Matrix

variable {K : Type} [ExactField K]

section Forms

variable {ι : Type} [Fintype ι] {A : Matrix ι ι K} {sign : ι → Sign}
  {side : Sign} {x : ι → K}

def quadratic (A : Matrix ι ι K) (x : ι → K) : K :=
  x ⬝ᵥ A *ᵥ x

/-- The block on the rows and columns of one sign. -/
def principal (A : Matrix ι ι K) (sign : ι → Sign) (side : Sign) :
    Matrix {i // sign i = side} {i // sign i = side} K :=
  A.submatrix Subtype.val Subtype.val

structure QuasiSemidefinite (A : Matrix ι ι K) (sign : ι → Sign) : Prop where
  positive : ∀ x, 0 ≤ quadratic (principal A sign .positive) x
  negative : ∀ x, quadratic (principal A sign .negative) x ≤ 0

/-- The vector is zero on the rows of the other sign. -/
def SupportedOn (sign : ι → Sign) (side : Sign) (x : ι → K) : Prop :=
  ∀ i, sign i ≠ side → x i = 0

theorem sum_subtype_of_support {term : ι → K}
    (supported : SupportedOn sign side term) :
    ∑ i : {i // sign i = side}, term i = ∑ i, term i := by
  rw [← Finset.sum_subtype (Finset.univ.filter fun i => sign i = side)
    (fun i => by simp) term, Finset.sum_filter_of_ne]
  exact fun i _ nonzero => Decidable.not_not.mp fun other =>
    nonzero (supported i other)

theorem quadratic_principal (supported : SupportedOn sign side x) :
    quadratic (principal A sign side) (fun i => x i) = quadratic A x := by
  rw [quadratic, quadratic, dotProduct, dotProduct]
  have outer : SupportedOn sign side fun i => x i * (A *ᵥ x) i :=
    fun i other => mul_eq_zero_of_left (supported i other) _
  rw [← sum_subtype_of_support outer]
  refine Finset.sum_congr rfl fun i _ => congrArg (x i * ·) ?_
  have inner : SupportedOn sign side fun k => A i k * x k :=
    fun k other => mul_eq_zero_of_right _ (supported k other)
  exact sum_subtype_of_support inner

theorem quasiSemidefinite_iff : QuasiSemidefinite A sign ↔
    ∀ side x, SupportedOn sign side x →
      0 ≤ side.value * quadratic A x := by
  constructor
  · intro semidefinite side x supported
    rw [← quadratic_principal supported]
    cases side with
    | positive => exact (semidefinite.positive _).trans_eq (one_mul _).symm
    | negative =>
        exact (neg_nonneg.mpr (semidefinite.negative _)).trans_eq
          (neg_one_mul _).symm
  · intro nonneg
    have extended (side : Sign) (x : {i // sign i = side} → K) :
        0 ≤ side.value * quadratic (principal A sign side) x := by
      let whole i := if inside : sign i = side then x ⟨i, inside⟩ else 0
      have supported : SupportedOn sign side whole :=
        fun i other => dif_neg other
      have same : (fun i : {i // sign i = side} => whole i) = x :=
        funext fun i => dif_pos i.2
      have bound := nonneg side whole supported
      rwa [← quadratic_principal supported, same] at bound
    refine ⟨fun x => ?_, fun x => ?_⟩
    · exact (extended .positive x).trans_eq (one_mul _)
    · exact neg_nonneg.mp ((extended .negative x).trans_eq (neg_one_mul _))

theorem QuasiSemidefinite.submatrix {κ : Type} [Fintype κ] (e : κ ≃ ι)
    (semidefinite : QuasiSemidefinite A sign) :
    QuasiSemidefinite (A.submatrix e e) fun k => sign (e k) := by
  rw [quasiSemidefinite_iff] at semidefinite ⊢
  intro side x supported
  have form : quadratic (A.submatrix e e) x = quadratic A (x ∘ e.symm) := by
    rw [quadratic, quadratic, Matrix.submatrix_mulVec_equiv,
      ← comp_equiv_symm_dotProduct]
  rw [form]
  refine semidefinite side _ fun i other => ?_
  refine supported (e.symm i) ?_
  dsimp only
  rwa [e.apply_symm_apply]

/-- With the signs of its rows on one side, the form of a quasi-semidefinite
matrix is nonnegative: what the two blocks have in common cancels. -/
theorem QuasiSemidefinite.nonneg (semidefinite : QuasiSemidefinite A sign)
    (symmetric : A.IsSymm) (v : ι → K) :
    0 ≤ (fun i => (sign i).value * v i) ⬝ᵥ A *ᵥ v := by
  rw [quasiSemidefinite_iff] at semidefinite
  let part (side : Sign) (i : ι) : K := if sign i = side then v i else 0
  have supported (side : Sign) : SupportedOn sign side (part side) :=
    fun i other => if_neg other
  have whole : v = part .positive + part .negative := by
    funext i
    cases here : sign i <;> simp [part, here]
  have signed : (fun i => (sign i).value * v i) =
      part .positive - part .negative := by
    funext i
    cases here : sign i <;> simp [part, here, Sign.value]
  have mixed : part .positive ⬝ᵥ A *ᵥ part .negative =
      part .negative ⬝ᵥ A *ᵥ part .positive := by
    rw [Matrix.dotProduct_mulVec, ← Matrix.mulVec_transpose, symmetric.eq,
      dotProduct_comm]
  have positive := semidefinite .positive _ (supported .positive)
  have negative := semidefinite .negative _ (supported .negative)
  have expanded : (fun i => (sign i).value * v i) ⬝ᵥ A *ᵥ v =
      Sign.positive.value * quadratic A (part .positive) +
        Sign.negative.value * quadratic A (part .negative) := by
    rw [signed]
    conv => lhs; rw [whole]
    rw [Matrix.mulVec_add, dotProduct_add, sub_dotProduct, sub_dotProduct,
      mixed, quadratic, quadratic, Sign.value, Sign.value]
    ring
  rw [expanded]
  exact add_nonneg positive negative

end Forms

/-! Pivots of a shifted matrix. -/

section Pivots

variable {size : Nat} {A L : Matrix (Fin size) (Fin size) K}
  {sign : Fin size → Sign} {pivot moves : Fin size → K} {shift : K}

theorem sum_eq_at {term : Fin size → K} (k : Fin size)
    (before : ∀ i, i < k → term i = 0) (after : ∀ i, k < i → term i = 0) :
    ∑ i, term i = term k :=
  Fintype.sum_eq_single k fun i differs =>
    (lt_or_gt_of_ne differs).elim (before i) (after i)

/-- The column of the inverse of the transposed factor. It ends in a one. -/
theorem exists_column (unit : ∀ k, L k k = 1)
    (upper : ∀ i k, i < k → L i k = 0) (k : Fin size) :
    ∃ v : Fin size → K, Lᵀ *ᵥ v = Pi.single k 1 ∧ v k = 1 ∧
      ∀ i, k < i → v i = 0 := by
  have triangular : Lᵀ.IsUpperTriangular := fun i j below => upper j i below
  have invertible : IsUnit Lᵀ.det := by
    rw [Matrix.det_of_isUpperTriangular triangular]
    simp [unit]
  let v := Lᵀ⁻¹ *ᵥ Pi.single k 1
  have solves : Lᵀ *ᵥ v = Pi.single k 1 := by
    rw [Matrix.mulVec_mulVec, Matrix.mul_nonsing_inv _ invertible,
      Matrix.one_mulVec]
  have after : ∀ i, k < i → v i = 0 := by
    have := Matrix.invertibleOfIsUnitDet _ invertible
    intro i later
    rw [show v i = Lᵀ⁻¹ i k by simp [v]]
    exact Matrix.blockTriangular_inv_of_blockTriangular triangular later
  refine ⟨v, solves, ?_, after⟩
  have here := congrFun solves k
  rw [Pi.single_eq_same, Matrix.mulVec, dotProduct, sum_eq_at k] at here
  · rwa [Matrix.transpose_apply, unit, one_mul] at here
  · intro i before
    rw [Matrix.transpose_apply, upper i k before, zero_mul]
  · intro i later
    rw [after i later, mul_zero]

/-- As long as no pivot has been moved, the next one is at least the shift
away from zero, on its own side. -/
theorem shift_le_pivot (symmetric : A.IsSymm)
    (semidefinite : QuasiSemidefinite A sign) (nonneg : 0 ≤ shift)
    (unit : ∀ k, L k k = 1) (upper : ∀ i k, i < k → L i k = 0)
    (product : L * Matrix.diagonal pivot * Lᵀ =
      A + shift • Matrix.diagonal (fun k => (sign k).value) +
        Matrix.diagonal moves)
    (k : Fin size) (before : ∀ i, i < k → moves i = 0) :
    shift ≤ (sign k).value * (pivot k - moves k) := by
  obtain ⟨v, solves, one, after⟩ := exists_column unit upper k
  have left : (fun i => (sign i).value * v i) ⬝ᵥ
      (L * Matrix.diagonal pivot * Lᵀ) *ᵥ v = (sign k).value * pivot k := by
    rw [← Matrix.mulVec_mulVec, solves, Matrix.mulVec_single_one, dotProduct,
      sum_eq_at k]
    · rw [Matrix.col_apply, Matrix.mul_diagonal, unit, one, one_mul, mul_one]
    · intro i earlier
      rw [Matrix.col_apply, Matrix.mul_diagonal, upper i k earlier, zero_mul,
        mul_zero]
    · intro i later
      rw [after i later, mul_zero, zero_mul]
  have right : (fun i => (sign i).value * v i) ⬝ᵥ
      (A + shift • Matrix.diagonal (fun k => (sign k).value) +
        Matrix.diagonal moves) *ᵥ v =
      (fun i => (sign i).value * v i) ⬝ᵥ A *ᵥ v + shift * (v ⬝ᵥ v) +
        (sign k).value * moves k := by
    rw [Matrix.add_mulVec, Matrix.add_mulVec, dotProduct_add, dotProduct_add,
      Matrix.smul_mulVec, dotProduct_smul, smul_eq_mul]
    congr 1
    · congr 2
      refine Finset.sum_congr rfl fun i _ => ?_
      rw [Matrix.mulVec_diagonal, mul_mul_mul_comm, Sign.value_mul_self,
        one_mul]
    · rw [dotProduct, sum_eq_at k]
      · rw [Matrix.mulVec_diagonal, one, mul_one, mul_one]
      · intro i earlier
        rw [Matrix.mulVec_diagonal, before i earlier, zero_mul, mul_zero]
      · intro i later
        rw [after i later, mul_zero, zero_mul]
  have square : 1 ≤ v ⬝ᵥ v := by
    have part := Finset.single_le_sum
      (fun i _ => mul_self_nonneg (v i)) (Finset.mem_univ k)
    rwa [one, one_mul] at part
  have form := semidefinite.nonneg symmetric v
  rw [product, right] at left
  calc shift = shift * 1 := (mul_one shift).symm
    _ ≤ shift * (v ⬝ᵥ v) := mul_le_mul_of_nonneg_left square nonneg
    _ ≤ (fun i => (sign i).value * v i) ⬝ᵥ A *ᵥ v + shift * (v ⬝ᵥ v) :=
        le_add_of_nonneg_left form
    _ = (sign k).value * (pivot k - moves k) := by
        rw [mul_sub, ← left, add_sub_cancel_right]

theorem no_pivot_moved (symmetric : A.IsSymm)
    (semidefinite : QuasiSemidefinite A sign) (nonneg : 0 ≤ shift)
    (unit : ∀ k, L k k = 1) (upper : ∀ i k, i < k → L i k = 0)
    (product : L * Matrix.diagonal pivot * Lᵀ =
      A + shift • Matrix.diagonal (fun k => (sign k).value) +
        Matrix.diagonal moves)
    {threshold : K} (small : threshold < shift)
    (kept : ∀ k, threshold < (sign k).value * (pivot k - moves k) →
      moves k = 0) : moves = 0 := by
  funext k
  -- By induction on the order of elimination.
  induction k using WellFoundedLT.induction with
  | ind k before =>
      exact kept k (small.trans_le
        (shift_le_pivot symmetric semidefinite nonneg unit upper product k
          before))

end Pivots

variable {plan : Plan} {pattern : Pattern} {signs : Array Sign}
  {rule : OrderRule} {settings : Settings K} {values : Array K}
  {factor : Factor K} {moves : Fin pattern.size → K}

def signAt (signs : Array Sign) {size : Nat} (i : Fin size) : Sign :=
  signs.getD i default

theorem Pattern.dense_isSymm (values : Array K) :
    (pattern.dense values).IsSymm := by
  refine Matrix.IsSymm.ext fun i k => ?_
  rw [Pattern.dense, Matrix.of_apply, Matrix.of_apply, Pattern.slot?,
    Pattern.slot?, Nat.min_comm, Nat.max_comm]

namespace Factor

/-- The factors of a matrix that was shifted and nothing else. -/
structure Unlifted (factor : Factor K) (plan : Plan) (pattern : Pattern)
    (signs : Array Sign) (settings : Settings K) (values : Array K) :
    Prop where
  lifted : factor.summary.lifted = 0
  magnitude : factor.summary.magnitude = 0
  warning : factor.summary.warning = none
  pivots : ∀ k : Fin pattern.size, settings.staticReg ≤
    sideAt signs plan.order.order k * factor.pivotAt k
  decomposes : factor.Decomposes plan pattern signs settings values 0
  product : factor.unitLower plan pattern.size *
      Matrix.diagonal (fun k : Fin pattern.size => factor.pivotAt k) *
      (factor.unitLower plan pattern.size)ᵀ =
    permutationMatrix K pattern.size plan.order.order *
      (pattern.dense values +
        settings.staticReg • Matrix.diagonal fun i => (signAt signs i).value) *
      (permutationMatrix K pattern.size plan.order.order)ᵀ

theorem Decomposes.unlifted_of_still (valid : plan.order.Valid pattern.size)
    (validated : settings.validate = .ok ())
    (decomposes : factor.Decomposes plan pattern signs settings values 0)
    (accounts : factor.summary.Accounts settings
      (fun k : Fin pattern.size => sideAt signs plan.order.order k)
      (fun k => factor.pivotAt k) 0)
    (pivots : ∀ k : Fin pattern.size, settings.staticReg ≤
      sideAt signs plan.order.order k * factor.pivotAt k)
    (clear : ∀ k : Fin pattern.size, settings.dynamicEps <
      sideAt signs plan.order.order k * factor.pivotAt k) :
    factor.Unlifted plan pattern signs settings values := by
  obtain ⟨_, _, _, threshold, _⟩ := Settings.validate_eq_ok_iff.mp validated
  have magnitude : factor.summary.magnitude = 0 := by
    rw [accounts.magnitude]
    exact Finset.sum_eq_zero fun k _ => abs_zero
  refine ⟨?_, magnitude, ?_, pivots, decomposes, ?_⟩
  · rw [accounts.lifted, Finset.card_eq_zero, Finset.filter_eq_empty_iff]
    intro k _
    rw [Pi.zero_apply, sub_zero, not_le]
    exact clear k
  · rw [accounts.warning, magnitude, if_neg (not_lt.mpr threshold.le)]
  · rw [decomposes.product, valid.permutationMatrix_mul,
      valid.permutationMatrix_mul, Matrix.submatrix_add, Pi.add_apply,
      Pi.add_apply, Matrix.submatrix_smul, Pi.smul_apply, Pi.smul_apply,
      Matrix.submatrix_diagonal_equiv, Pi.zero_def, Matrix.diagonal_zero,
      add_zero]
    rfl

theorem Decomposes.unlifted (valid : plan.order.Valid pattern.size)
    (validated : settings.validate = .ok ())
    (small : settings.dynamicEps < settings.staticReg)
    (semidefinite : QuasiSemidefinite (pattern.dense values) (signAt signs))
    (decomposes : factor.Decomposes plan pattern signs settings values moves)
    (accounts : factor.summary.Accounts settings
      (fun k : Fin pattern.size => sideAt signs plan.order.order k)
      (fun k => factor.pivotAt k) moves) :
    factor.Unlifted plan pattern signs settings values := by
  obtain ⟨nonneg, _⟩ := Settings.validate_eq_ok_iff.mp validated
  have product := decomposes.product
  rw [valid.permutationMatrix_mul] at product
  have symmetric := (pattern.dense_isSymm values).submatrix valid.equiv
  have reordered := semidefinite.submatrix valid.equiv
  have still : moves = 0 := no_pivot_moved symmetric reordered nonneg
    decomposes.diagonal decomposes.upper product small decomposes.kept
  subst still
  have pivots (k : Fin pattern.size) : settings.staticReg ≤
      sideAt signs plan.order.order k * factor.pivotAt k := by
    have bound := shift_le_pivot symmetric reordered nonneg
      decomposes.diagonal decomposes.upper product k fun _ _ => rfl
    rwa [Pi.zero_apply, sub_zero] at bound
  exact decomposes.unlifted_of_still valid validated accounts pivots
    fun k => small.trans_le (pivots k)

theorem events_of_unlifted {α : Type} {summary : Summary α}
    {pivots : List (Pivot α)} (lifted : pivots.countP Pivot.lifted = 0)
    (warning : summary.warning = none) : summary.events pivots = [] := by
  rw [List.countP_eq_zero] at lifted
  rw [Summary.events, warning, Option.map_none, Option.toList_none,
    List.append_nil, List.filterMap_eq_nil_iff]
  rintro ⟨pivot, row⟩ member
  have inside := List.mem_of_getElem? (List.mem_zipIdx_iff_getElem?.mp member)
  exact if_neg (lifted pivot inside)

/-- In every order of elimination and after any calls the values are factored
without lifting a pivot, and nothing is worth a line in a log. -/
def NeverLifts (pattern : Pattern) (signs : Array Sign)
    (settings : Settings K) (values : Array K) : Prop :=
  ∀ rule : OrderRule,
    (rule.listing pattern).toList.Perm (List.range pattern.size) →
    ∃ plan, Plan.make pattern signs rule = .ok (.ok plan) ∧
      plan.order.order = rule.listing pattern ∧
      ∀ history, ∃ factor, replay plan history = .ok factor ∧
        ∃ new, factorize plan settings values factor =
            .ok ⟨.ok new.summary, new, []⟩ ∧
          new.Unlifted plan pattern signs settings values

theorem neverLifts (constructed : pattern.Constructed)
    (signs_size : signs.size = pattern.size)
    (values_size : values.size = pattern.slotCount)
    (validated : settings.validate = .ok ())
    (small : settings.dynamicEps < settings.staticReg)
    (semidefinite : QuasiSemidefinite (pattern.dense values) (signAt signs)) :
    NeverLifts pattern signs settings values := by
  intro rule perm
  obtain ⟨plan, made, regular, listed⟩ :=
    Plan.make_runs constructed signs_size perm
  refine ⟨plan, made, listed, fun history => ?_⟩
  obtain ⟨factor, ran, fits⟩ := replay_fits regular history
  obtain ⟨new, numbers, replied, holds⟩ := factorize_runs regular fits
    (values_size.trans regular.relabels.slotCount_eq.symm)
    (rejected_exact settings values)
  have unlifted := (holds.decomposes regular signs_size validated).unlifted
    regular.valid validated small semidefinite
    (holds.accounts regular signs_size)
  have counted : (pivotsOf plan numbers).countP Pivot.lifted = 0 := by
    rw [← unlifted.lifted, holds.summary]
    rfl
  rw [events_of_unlifted counted unlifted.warning] at replied
  exact ⟨factor, ran, new, replied, unlifted⟩

end Factor

end QuasiDefinite
