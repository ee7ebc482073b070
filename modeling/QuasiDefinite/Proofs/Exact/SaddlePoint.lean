import QuasiDefinite.Proofs.Exact.Semidefinite

namespace QuasiDefinite

open Matrix

variable {K : Type} [ExactField K] {size : Nat}
  {A L : Matrix (Fin size) (Fin size) K} {sign : Fin size → Sign}
  {pivot moves : Fin size → K}

structure SaddlePoint (A : Matrix (Fin size) (Fin size) K)
    (sign : Fin size → Sign) : Prop where
  first : ∀ i k, sign i = .positive → sign k = .negative → i < k
  definite : ∀ x, SupportedOn sign .positive x → x ≠ 0 → 0 < quadratic A x
  zero : ∀ i k, sign i = .negative → sign k = .negative → A i k = 0
  independent : ∀ x, SupportedOn sign .negative x →
    (∀ i, sign i = .positive → (A *ᵥ x) i = 0) → x = 0

/-! The form along a column of the inverse. -/

/-- As long as no pivot has been moved, the next one is the value of the form at
a vector that ends in a one and that the earlier rows do not see. -/
theorem exists_direction (unit : ∀ k, L k k = 1)
    (upper : ∀ i k, i < k → L i k = 0)
    (product : L * Matrix.diagonal pivot * Lᵀ = A + Matrix.diagonal moves)
    (k : Fin size) (before : ∀ i, i < k → moves i = 0) :
    ∃ v : Fin size → K, v k = 1 ∧ (∀ i, k < i → v i = 0) ∧
      (∀ i, i < k → (A *ᵥ v) i = 0) ∧ (A *ᵥ v) k = pivot k - moves k := by
  obtain ⟨v, solves, one, after⟩ := exists_column unit upper k
  have row (i : Fin size) : L i k * pivot k = (A *ᵥ v) i + moves i * v i := by
    have applied : ((L * Matrix.diagonal pivot * Lᵀ) *ᵥ v) i =
        ((A + Matrix.diagonal moves) *ᵥ v) i := by rw [product]
    rwa [← Matrix.mulVec_mulVec, solves, Matrix.mulVec_single_one,
      Matrix.col_apply, Matrix.mul_diagonal, Matrix.add_mulVec, Pi.add_apply,
      Matrix.mulVec_diagonal] at applied
  refine ⟨v, one, after, fun i earlier => ?_, ?_⟩
  · have here := row i
    rw [upper i k earlier, before i earlier, zero_mul, zero_mul, add_zero]
      at here
    exact here.symm
  · rw [eq_sub_iff_add_eq, ← mul_one (moves k), ← one, ← row, unit, one_mul]

theorem quadratic_direction {v : Fin size → K} {k : Fin size} (one : v k = 1)
    (after : ∀ i, k < i → v i = 0)
    (unseen : ∀ i, i < k → (A *ᵥ v) i = 0) :
    quadratic A v = (A *ᵥ v) k := by
  rw [quadratic, dotProduct, sum_eq_at k, one, one_mul]
  · intro i earlier
    rw [unseen i earlier, mul_zero]
  · intro i later
    rw [after i later, zero_mul]

namespace SaddlePoint

variable {v : Fin size → K}

theorem quadratic_negative (saddle : SaddlePoint A sign)
    (supported : SupportedOn sign .negative v) : quadratic A v = 0 := by
  rw [quadratic, dotProduct]
  refine Finset.sum_eq_zero fun i _ => ?_
  by_cases negativeI : sign i = .negative
  · rw [Matrix.mulVec, dotProduct, Finset.sum_eq_zero, mul_zero]
    intro k _
    by_cases negativeK : sign k = .negative
    · rw [saddle.zero i k negativeI negativeK, zero_mul]
    · rw [supported k negativeK, mul_zero]
  · rw [supported i negativeI, zero_mul]

/-- A vector that the positive rows do not see has a form below zero: what is
left is the form of its positive part, taken away. -/
theorem quadratic_neg (saddle : SaddlePoint A sign) (symmetric : A.IsSymm)
    (unseen : ∀ i, sign i = .positive → (A *ᵥ v) i = 0) (nonzero : v ≠ 0) :
    quadratic A v < 0 := by
  let head (i : Fin size) : K := if sign i = .positive then v i else 0
  let tail (i : Fin size) : K := if sign i = .negative then v i else 0
  have headSupported : SupportedOn sign .positive head :=
    fun i other => if_neg other
  have tailSupported : SupportedOn sign .negative tail :=
    fun i other => if_neg other
  have whole : v = head + tail := by
    funext i
    cases here : sign i <;> simp [head, tail, here]
  have mixed : tail ⬝ᵥ A *ᵥ head = head ⬝ᵥ A *ᵥ tail := by
    rw [Matrix.dotProduct_mulVec, ← Matrix.mulVec_transpose, symmetric.eq,
      dotProduct_comm]
  have orthogonal : head ⬝ᵥ A *ᵥ v = 0 := by
    refine Finset.sum_eq_zero fun i _ => ?_
    by_cases positive : sign i = .positive
    · rw [unseen i positive, mul_zero]
    · rw [headSupported i positive, zero_mul]
  have split : head ⬝ᵥ A *ᵥ head + head ⬝ᵥ A *ᵥ tail = 0 := by
    rw [← dotProduct_add, ← Matrix.mulVec_add, ← whole, orthogonal]
  have form : quadratic A v = -quadratic A head := by
    calc quadratic A v = head ⬝ᵥ A *ᵥ v + tail ⬝ᵥ A *ᵥ v := by
          rw [← add_dotProduct, ← whole, quadratic]
      _ = tail ⬝ᵥ A *ᵥ head + quadratic A tail := by
          rw [orthogonal, zero_add, quadratic, ← dotProduct_add,
            ← Matrix.mulVec_add, ← whole]
      _ = head ⬝ᵥ A *ᵥ tail := by
          rw [saddle.quadratic_negative tailSupported, add_zero, mixed]
      _ = -quadratic A head := eq_neg_of_add_eq_zero_right split
  rw [form, neg_lt_zero]
  refine saddle.definite head headSupported fun none => nonzero ?_
  rw [none, zero_add] at whole
  rw [whole] at unseen ⊢
  exact saddle.independent tail tailSupported unseen

theorem pivot_admitted (saddle : SaddlePoint A sign) (symmetric : A.IsSymm)
    (unit : ∀ k, L k k = 1) (upper : ∀ i k, i < k → L i k = 0)
    (product : L * Matrix.diagonal pivot * Lᵀ = A + Matrix.diagonal moves)
    (k : Fin size) (before : ∀ i, i < k → moves i = 0) :
    0 < (sign k).value * (pivot k - moves k) := by
  obtain ⟨v, one, after, unseen, here⟩ :=
    exists_direction unit upper product k before
  have nonzero : v ≠ 0 := fun none => by
    rw [none] at one
    exact zero_ne_one one
  rw [← here, ← quadratic_direction one after unseen]
  cases side : sign k with
  | positive =>
      have supported : SupportedOn sign .positive v := by
        intro i other
        refine after i (saddle.first k i side ?_)
        cases found : sign i with
        | positive => exact absurd found other
        | negative => rfl
      rw [Sign.value, one_mul]
      exact saddle.definite v supported nonzero
  | negative =>
      rw [Sign.value, neg_one_mul, neg_pos]
      exact saddle.quadratic_neg symmetric
        (fun i positive => unseen i (saddle.first i k positive side)) nonzero

theorem moves_eq_zero (saddle : SaddlePoint A sign) (symmetric : A.IsSymm)
    (unit : ∀ k, L k k = 1) (upper : ∀ i k, i < k → L i k = 0)
    (product : L * Matrix.diagonal pivot * Lᵀ = A + Matrix.diagonal moves)
    (kept : ∀ k, 0 < (sign k).value * (pivot k - moves k) → moves k = 0) :
    moves = 0 := by
  funext k
  -- By induction on the order of elimination.
  induction k using WellFoundedLT.induction with
  | ind k before =>
      exact kept k
        (saddle.pivot_admitted symmetric unit upper product k before)

end SaddlePoint

/-! Factorizations in natural order. -/

theorem Permutation.Valid.equiv_of_natural {permutation : Permutation}
    (valid : permutation.Valid size)
    (natural : permutation.order = .range size) :
    valid.equiv = Equiv.refl (Fin size) := by
  ext k
  have found := valid.order_equiv k
  rw [natural, Array.getElem?_range, if_pos k.isLt, Option.some.injEq] at found
  exact found.symm

variable {plan : Plan} {pattern : Pattern} {signs : Array Sign}
  {settings : Settings K} {values : Array K} {factor : Factor K}

/-- Without a shift and without a margin for pivots. -/
structure Settings.Unshifted (settings : Settings K) : Prop where
  natural : settings.order = .natural
  staticReg : settings.staticReg = 0
  dynamicEps : settings.dynamicEps = 0

theorem sideAt_natural (natural : plan.order.order = .range pattern.size)
    (k : Fin pattern.size) :
    (sideAt signs plan.order.order k : K) = (signAt signs k).value := by
  have here : (Array.range pattern.size).getD k 0 = k :=
    getD_of_getElem? (Array.getElem?_range.trans (if_pos k.isLt))
  rw [sideAt, signAt, natural, here]

theorem Factor.Decomposes.unlifted_of_saddlePoint
    {moves : Fin pattern.size → K} (valid : plan.order.Valid pattern.size)
    (natural : plan.order.order = .range pattern.size)
    (validated : settings.validate = .ok ()) (unshifted : settings.Unshifted)
    (saddle : SaddlePoint (pattern.dense values) (signAt signs))
    (decomposes : factor.Decomposes plan pattern signs settings values moves)
    (accounts : factor.summary.Accounts settings
      (fun k : Fin pattern.size => sideAt signs plan.order.order k)
      (fun k => factor.pivotAt k) moves) :
    factor.Unlifted plan pattern signs settings values := by
  have symmetric := pattern.dense_isSymm values
  have product := decomposes.product
  rw [valid.permutationMatrix_mul, valid.equiv_of_natural natural,
    unshifted.staticReg, zero_smul, add_zero] at product
  have still : moves = 0 := by
    refine saddle.moves_eq_zero symmetric decomposes.diagonal decomposes.upper
      product fun k clear => decomposes.kept k ?_
    rwa [unshifted.dynamicEps, sideAt_natural natural]
  subst still
  have clear (k : Fin pattern.size) :
      0 < sideAt signs plan.order.order k * factor.pivotAt k := by
    have admitted := saddle.pivot_admitted symmetric decomposes.diagonal
      decomposes.upper product k fun _ _ => rfl
    rwa [Pi.zero_apply, sub_zero, ← sideAt_natural natural] at admitted
  refine decomposes.unlifted_of_still valid validated accounts (fun k => ?_)
    fun k => ?_
  · rw [unshifted.staticReg]
    exact (clear k).le
  · rw [unshifted.dynamicEps]
    exact clear k

end QuasiDefinite
