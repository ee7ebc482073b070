import Mathlib.LinearAlgebra.Matrix.Block
import Mathlib.LinearAlgebra.Matrix.Nondegenerate
import QuasiDefinite.Proofs.Exact.Decomposition
import QuasiDefinite.Proofs.Factor.Substitute

namespace QuasiDefinite

open Matrix Elimination

variable {K : Type} [ExactField K] {plan : Plan} {pattern : Pattern}
  {signs : Array Sign} {settings : Settings K} {values : Array K}
  {factor : Factor K} {numbers : Numbers K}

/-! Substitution as three products. -/

namespace Factor

theorem taken_exact (multiplier component value : K) :
    taken multiplier component value = value - multiplier * component := by
  rw [taken, Scalar.isZero_exact]
  by_cases zero : component = 0
  · rw [if_pos (decide_eq_true zero), zero, mul_zero, sub_zero]
  · rw [if_neg (by simpa using zero)]

namespace Holds

theorem stored_eq (holds : factor.Holds plan settings values numbers)
    {row col : Nat} (member : col ∈ plan.rowColumns row) :
    plan.stored factor.lower row col = numbers.multiplier row col := by
  rw [Plan.stored, getD_of_getElem? (holds.lower row col member)]

theorem forward_eq (regular : plan.Regular pattern signs)
    (holds : factor.Holds plan settings values numbers) {b y : Nat → K}
    {row : Nat} (inside : row < plan.size)
    (solved : y row =
      forwardRest plan factor.lower y row (b row) (plan.rowColumns row)) :
    ∑ col ∈ Finset.range plan.size, numbers.unit plan row col * y col =
      b row := by
  have rest : forwardRest plan factor.lower y row (b row)
      (plan.rowColumns row) = b row - ((plan.rowColumns row).map fun col =>
        numbers.multiplier row col * y col).sum := by
    rw [forwardRest, ← foldl_sub_eq]
    apply List.foldl_ext
    intro value col member
    rw [taken_exact, holds.stored_eq member]
  rw [Numbers.sum_unit regular inside, solved, rest, sub_add_cancel]

theorem backward_eq (regular : plan.Regular pattern signs)
    (holds : factor.Holds plan settings values numbers) {z : Nat → K}
    {col : Nat} {start : K} (inside : col < plan.size)
    (solved : z col = backwardRest plan factor.lower z col start
      (rowsBefore plan.rowLists plan.size col)) :
    ∑ row ∈ Finset.range plan.size, numbers.unit plan row col * z row =
      start := by
  have rest : backwardRest plan factor.lower z col start
      (rowsBefore plan.rowLists plan.size col) =
      start - ((rowsBefore plan.rowLists plan.size col).map fun row =>
        numbers.multiplier row col * z row).sum := by
    rw [backwardRest, ← foldl_sub_eq]
    apply List.foldl_ext
    intro value row member
    rw [holds.stored_eq (mem_rowsBefore.mp member).2]
  rw [Numbers.sum_unit_column regular inside, solved, rest, sub_add_cancel]

theorem backward_mulVec (regular : plan.Regular pattern signs)
    (holds : factor.Holds plan settings values numbers) {u z : Nat → K}
    (solved : ∀ col, col < plan.size →
      z col = backwardRest plan factor.lower z col (u col)
        (rowsBefore plan.rowLists plan.size col)) :
    (factor.unitLower plan pattern.size)ᵀ *ᵥ
      (fun k : Fin pattern.size => z k) = fun k : Fin pattern.size => u k := by
  funext k
  have inside : k.val < plan.size := by
    rw [regular.size_eq]
    exact k.isLt
  rw [← holds.backward_eq regular inside (solved k inside),
    regular.size_eq, Finset.sum_range, Matrix.mulVec, dotProduct]
  apply Finset.sum_congr rfl
  intro i _
  rw [Matrix.transpose_apply, holds.unitLower_apply regular]

theorem forward_mulVec (regular : plan.Regular pattern signs)
    (holds : factor.Holds plan settings values numbers) {b y : Nat → K}
    (solved : ∀ row, row < plan.size →
      y row = forwardRest plan factor.lower y row (b row)
        (plan.rowColumns row)) :
    factor.unitLower plan pattern.size *ᵥ
      (fun k : Fin pattern.size => y k) = fun k : Fin pattern.size => b k := by
  funext i
  have inside : i.val < plan.size := by
    rw [regular.size_eq]
    exact i.isLt
  rw [← holds.forward_eq regular inside (solved i inside), regular.size_eq,
    Finset.sum_range, Matrix.mulVec, dotProduct]
  apply Finset.sum_congr rfl
  intro k _
  rw [holds.unitLower_apply regular]

theorem scale_mulVec (regular : plan.Regular pattern signs)
    (signs_size : signs.size = pattern.size)
    (validated : settings.validate = .ok ())
    (holds : factor.Holds plan settings values numbers) (y : Nat → K) :
    Matrix.diagonal (fun k : Fin pattern.size => factor.pivotAt k) *ᵥ
      (fun k : Fin pattern.size => y k * factor.inverse.getD k 0) =
      fun k : Fin pattern.size => y k := by
  funext k
  have inside : k.val < plan.size := by
    rw [regular.size_eq]
    exact k.isLt
  have inverse : factor.inverse.getD k 0 = 1 / (numbers.pivot k).kept :=
    getD_of_getElem? (holds.inverse k inside)
  have nonzero := holds.kept_ne_zero regular signs_size validated k inside
  rw [Matrix.mulVec_diagonal, holds.pivotAt_eq inside, inverse, mul_left_comm,
    mul_one_div_cancel nonzero, mul_one]

theorem mulVec_eq (regular : plan.Regular pattern signs)
    (signs_size : signs.size = pattern.size)
    (validated : settings.validate = .ok ())
    (holds : factor.Holds plan settings values numbers) {b z : Nat → K}
    (substitutes : Substitutes plan factor b z) :
    (factor.unitLower plan pattern.size *
        Matrix.diagonal (fun k : Fin pattern.size => factor.pivotAt k) *
        (factor.unitLower plan pattern.size)ᵀ) *ᵥ
      (fun k : Fin pattern.size => z k) = fun k : Fin pattern.size => b k := by
  obtain ⟨y, solvedY, solvedZ⟩ := substitutes
  rw [← Matrix.mulVec_mulVec, holds.backward_mulVec regular solvedZ,
    ← Matrix.mulVec_mulVec,
    holds.scale_mulVec regular signs_size validated y,
    holds.forward_mulVec regular solvedY]

end Holds

end Factor

namespace Permutation.Valid

variable {permutation : Permutation} {size : Nat}

theorem order_getD (valid : permutation.Valid size) (k : Fin size) :
    permutation.order[k.val]? = some (permutation.order.getD k 0) := by
  have inside : k.val < permutation.order.size := by
    rw [valid.order_size]
    exact k.isLt
  simp [inside]

theorem place_getD (valid : permutation.Valid size) (i : Fin size) :
    permutation.place[i.val]? = some (permutation.place.getD i 0) := by
  have inside : i.val < permutation.place.size := by
    rw [valid.place_size]
    exact i.isLt
  simp [inside]

/-- The permutation of the indices. It maps a place to the index there. -/
def equiv (valid : permutation.Valid size) : Equiv.Perm (Fin size) where
  toFun k := ⟨permutation.order.getD k 0, valid.order_lt (valid.order_getD k)⟩
  invFun i := ⟨permutation.place.getD i 0, valid.place_lt (valid.place_getD i)⟩
  left_inv k := by
    apply Fin.ext
    apply Option.some.inj
    rw [← valid.place_getD, ← valid.inverse]
    exact valid.order_getD k
  right_inv i := by
    apply Fin.ext
    apply Option.some.inj
    rw [← valid.order_getD, valid.inverse]
    exact valid.place_getD i

theorem order_equiv (valid : permutation.Valid size) (k : Fin size) :
    permutation.order[k.val]? = some (valid.equiv k).val :=
  valid.order_getD k

theorem permutationMatrix_mul (valid : permutation.Valid size)
    (A : Matrix (Fin size) (Fin size) K) :
    permutationMatrix K size permutation.order * A *
        (permutationMatrix K size permutation.order)ᵀ =
      A.submatrix valid.equiv valid.equiv := by
  ext i k
  exact permutationMatrix_mul_apply A (valid.order_equiv i)
    (valid.order_equiv k)

end Permutation.Valid

def components (size : Nat) (x : Array K) : Fin size → K :=
  fun i => x.getD i 0

theorem components_getElem? {size : Nat} {x : Array K} {i : Fin size}
    {value : K} (found : x[i.val]? = some value) :
    components size x i = value :=
  getD_of_getElem? found

/-- `x` is the only solution of the system. -/
structure OnlySolution {size : Nat} (A : Matrix (Fin size) (Fin size) K)
    (rhs x : Fin size → K) : Prop where
  solves : A *ᵥ x = rhs
  unique : ∀ x', A *ᵥ x' = rhs → x' = x

namespace OnlySolution

variable {size : Nat} {A : Matrix (Fin size) (Fin size) K}
  {shift rhs x : Fin size → K}

theorem of_det (invertible : A.det ≠ 0) (solves : A *ᵥ x = rhs) :
    OnlySolution A rhs x where
  solves := solves
  unique _ solves' :=
    Matrix.mulVec_injective_of_det_ne_zero invertible
      (solves'.trans solves.symm)

/-- What a solution of the shifted system leaves in the system itself. -/
theorem residual (only : OnlySolution (A + Matrix.diagonal shift) rhs x)
    (i : Fin size) : (A *ᵥ x - rhs) i = -(shift i * x i) := by
  rw [← only.solves, Matrix.add_mulVec, Pi.sub_apply, Pi.add_apply,
    Matrix.mulVec_diagonal]
  ring

theorem of_shift_zero (only : OnlySolution (A + Matrix.diagonal shift) rhs x)
    (zero : shift = 0) : OnlySolution A rhs x := by
  subst zero
  have same : A + Matrix.diagonal (0 : Fin size → K) = A := by
    rw [Pi.zero_def, Matrix.diagonal_zero, add_zero]
  rwa [same] at only

end OnlySolution

/-- The shift of every row in natural order: the static regularization towards
the sign of the row, and the distance by which its pivot was lifted. -/
def Shifts {size : Nat} (order : Array Nat) (signs : Array Sign)
    (settings : Settings K) (moves shift : Fin size → K) : Prop :=
  ∀ k i : Fin size, order[k.val]? = some i.val →
    shift i = (signs.getD i default).value * settings.staticReg + moves k

section Shifts

variable {moves shift : Fin pattern.size → K}

theorem exists_shifts (valid : plan.order.Valid pattern.size)
    (signs : Array Sign) (settings : Settings K)
    (moves : Fin pattern.size → K) :
    ∃ shift, Shifts plan.order.order signs settings moves shift := by
  refine ⟨fun i => (signs.getD i default).value * settings.staticReg +
    moves (valid.equiv.symm i), fun k i found => ?_⟩
  have here : valid.equiv k = i := by
    rw [valid.order_equiv, Option.some.injEq] at found
    exact Fin.ext found
  subst here
  dsimp only
  rw [Equiv.symm_apply_apply]

theorem Shifts.eq_zero (valid : plan.order.Valid pattern.size)
    (shifts : Shifts plan.order.order signs settings moves shift)
    (still : moves = 0) (staticReg : settings.staticReg = 0) : shift = 0 := by
  funext i
  obtain ⟨place, inside, _, found⟩ := valid.exists_place i.isLt
  rw [shifts ⟨place, inside⟩ i found, staticReg, still, mul_zero]
  exact add_zero 0

theorem Factor.Decomposes.moves_eq_zero
    (decomposes : factor.Decomposes plan pattern signs settings values moves)
    (accounts : factor.summary.Accounts settings
      (fun k : Fin pattern.size => sideAt signs plan.order.order k)
      (fun k => factor.pivotAt k) moves)
    (none : factor.summary.lifted = 0) : moves = 0 := by
  have counted := accounts.lifted
  rw [none, eq_comm, Finset.card_eq_zero, Finset.filter_eq_empty_iff]
    at counted
  funext k
  exact decomposes.kept k (not_le.mp (counted (Finset.mem_univ k)))

end Shifts

namespace Factor.Decomposes

variable {moves shift : Fin pattern.size → K}

theorem submatrix_eq (valid : plan.order.Valid pattern.size)
    (decomposes : factor.Decomposes plan pattern signs settings values moves)
    (shifts : Shifts plan.order.order signs settings moves shift) :
    (pattern.dense values + Matrix.diagonal shift).submatrix
        valid.equiv valid.equiv =
      factor.unitLower plan pattern.size *
        Matrix.diagonal (fun k : Fin pattern.size => factor.pivotAt k) *
        (factor.unitLower plan pattern.size)ᵀ := by
  rw [decomposes.product, valid.permutationMatrix_mul, Matrix.submatrix_add,
    Pi.add_apply, Pi.add_apply, Matrix.submatrix_diagonal_equiv, add_assoc,
    ← Matrix.diagonal_smul, Matrix.diagonal_add]
  congr 2
  funext k
  have found := valid.order_equiv k
  have here : plan.order.order.getD k 0 = valid.equiv k :=
    getD_of_getElem? found
  rw [Function.comp, shifts k _ found, Pi.smul_apply, sideAt, here,
    smul_eq_mul, mul_comm]

theorem det_ne_zero (valid : plan.order.Valid pattern.size)
    (decomposes : factor.Decomposes plan pattern signs settings values moves)
    (shifts : Shifts plan.order.order signs settings moves shift) :
    (pattern.dense values + Matrix.diagonal shift).det ≠ 0 := by
  have lower : (factor.unitLower plan pattern.size).det = 1 := by
    rw [Matrix.det_of_isLowerTriangular _ fun i k above =>
      decomposes.upper i k above]
    exact Finset.prod_eq_one fun k _ => decomposes.diagonal k
  rw [← Matrix.det_submatrix_equiv_self valid.equiv,
    decomposes.submatrix_eq valid shifts, Matrix.det_mul, Matrix.det_mul,
    Matrix.det_transpose, lower, one_mul, mul_one, Matrix.det_diagonal,
    Finset.prod_ne_zero_iff]
  intro k _ zero
  have side := decomposes.sides k
  rw [zero, mul_zero] at side
  exact lt_irrefl 0 side

end Factor.Decomposes

theorem Factor.Holds.solution_ordered (regular : plan.Regular pattern signs)
    (signs_size : signs.size = pattern.size)
    (validated : settings.validate = .ok ())
    (holds : factor.Holds plan settings values numbers)
    {shift : Fin pattern.size → K}
    (shifts : Shifts plan.order.order signs settings
      (fun k : Fin pattern.size => numbers.move k) shift)
    {b z : Nat → K} {u v : Fin pattern.size → K}
    (substitutes : Substitutes plan factor b z)
    (rhs : ∀ k : Fin pattern.size, u (regular.valid.equiv k) = b k)
    (x : ∀ k : Fin pattern.size, v (regular.valid.equiv k) = z k) :
    OnlySolution (pattern.dense values + Matrix.diagonal shift) u v := by
  have valid := regular.valid
  have decomposes := holds.decomposes regular signs_size validated
  have product := holds.mulVec_eq regular signs_size validated substitutes
  rw [← decomposes.submatrix_eq valid shifts, Matrix.submatrix_mulVec_equiv]
    at product
  have fromX : (fun k : Fin pattern.size => z k) ∘ valid.equiv.symm = v := by
    rw [Equiv.comp_symm_eq]
    exact funext fun k => (x k).symm
  have toRhs : (fun k : Fin pattern.size => b k) = u ∘ valid.equiv :=
    funext fun k => (rhs k).symm
  rw [fromX, toRhs] at product
  exact .of_det (decomposes.det_ne_zero valid shifts)
    (valid.equiv.surjective.injective_comp_right product)

theorem Factor.Holds.solution (regular : plan.Regular pattern signs)
    (signs_size : signs.size = pattern.size)
    (validated : settings.validate = .ok ())
    (holds : factor.Holds plan settings values numbers)
    {shift : Fin pattern.size → K}
    (shifts : Shifts plan.order.order signs settings
      (fun k : Fin pattern.size => numbers.move k) shift)
    {b z : Nat → K} {rhs x : Array K}
    (substitutes : Substitutes plan factor b z)
    (ordered : ∀ place index : Nat, plan.order.order[place]? = some index →
      rhs[index]? = some (b place) ∧ x[index]? = some (z place)) :
    OnlySolution (pattern.dense values + Matrix.diagonal shift)
      (components pattern.size rhs) (components pattern.size x) := by
  have placed (k : Fin pattern.size) :=
    ordered k _ (regular.valid.order_equiv k)
  exact holds.solution_ordered regular signs_size validated shifts substitutes
    (fun k => components_getElem? (placed k).1)
    fun k => components_getElem? (placed k).2

end QuasiDefinite
