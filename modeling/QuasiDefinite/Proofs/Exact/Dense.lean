import Mathlib.Data.Matrix.Mul
import QuasiDefinite.Proofs.Exact.Product

/-!
Full matrices. The matrix given by a pattern and its values, the permutation of
a plan, and the factors that a factorization holds, all of them square and with
every entry, those outside the patterns included.
-/

namespace QuasiDefinite

open Matrix Elimination

variable {K : Type} [ExactField K]

/-- The full symmetric matrix with the given values; zero outside the
pattern. -/
def Pattern.dense (pattern : Pattern) (values : Array K) :
    Matrix (Fin pattern.size) (Fin pattern.size) K :=
  Matrix.of fun i k => match pattern.slot? i k with
    | some slot => values.getD slot 0
    | none => 0

/-- Row `k` picks the index that comes k-th. -/
def permutationMatrix (K : Type) [ExactField K] (size : Nat)
    (order : Array Nat) :
    Matrix (Fin size) (Fin size) K :=
  Matrix.of fun k i => if order[k.val]? = some i.val then 1 else 0

/-- The side of zero of the pivot that comes k-th, as a number. -/
def sideAt (signs : Array Sign) (order : Array Nat) (k : Nat) : K :=
  (signs.getD (order.getD k 0) default).value

namespace Factor

/-- The entry of the factor below its diagonal, looked up in its row. -/
def lowerAt (factor : Factor K) (plan : Plan) (row col : Nat) : K :=
  match (plan.stepsAt row).find? fun step => step.col == col with
  | some step => factor.lower.getD step.slot 0
  | none => 0

def unitLower (factor : Factor K) (plan : Plan) (size : Nat) :
    Matrix (Fin size) (Fin size) K :=
  Matrix.of fun i k => if i = k then 1 else factor.lowerAt plan i k

def pivotAt (factor : Factor K) (k : Nat) : K :=
  factor.diagonal.getD k 0

end Factor

variable {plan : Plan} {pattern : Pattern} {signs : Array Sign}
  {settings : Settings K} {values matrix : Array K} {factor : Factor K}
  {numbers : Numbers K}

/-! The matrix in elimination order. -/

theorem permutationMatrix_mul_apply {order : Array Nat} {size : Nat}
    (A : Matrix (Fin size) (Fin size) K) {i k p q : Fin size}
    (foundRow : order[i.val]? = some p.val)
    (foundCol : order[k.val]? = some q.val) :
    (permutationMatrix K size order * A *
      (permutationMatrix K size order)ᵀ) i k = A p q := by
  have pick : ∀ {place index other : Fin size},
      order[place.val]? = some index.val →
      permutationMatrix K size order place other =
        if index = other then 1 else 0 := by
    intro place index other found
    rw [permutationMatrix, Matrix.of_apply, found]
    simp only [Option.some.injEq, Fin.val_inj]
  rw [Matrix.mul_apply, Finset.sum_eq_single q]
  · rw [Matrix.mul_apply, Finset.sum_eq_single p]
    · rw [Matrix.transpose_apply, pick foundRow, pick foundCol, if_pos rfl,
        if_pos rfl, one_mul, mul_one]
    · intro other _ differs
      rw [pick foundRow, if_neg differs.symm, zero_mul]
    · intro absent
      exact absurd (Finset.mem_univ p) absent
  · intro other _ differs
    rw [Matrix.transpose_apply, pick foundCol, if_neg differs.symm, mul_zero]
  · intro absent
    exact absurd (Finset.mem_univ q) absent

theorem Plan.valueAt_comm (row col : Nat) :
    plan.valueAt matrix row col = plan.valueAt matrix col row := by
  rw [valueAt, valueAt, Pattern.slot?, Pattern.slot?, Nat.min_comm,
    Nat.max_comm]

theorem Factor.Holds.dense_eq (regular : plan.Regular pattern signs)
    (holds : factor.Holds plan settings values numbers) {i k : Nat}
    {p q : Fin pattern.size} (foundRow : plan.order.order[i]? = some p.val)
    (foundCol : plan.order.order[k]? = some q.val) :
    pattern.dense values p q = plan.valueAt factor.matrix i k := by
  have moved := regular.relabels.wellFormed
  have mem_entries := regular.relabels.mem_entries regular.wellFormed
    regular.valid (i := i) (k := k)
  dsimp only at moved mem_entries
  rw [Pattern.dense, Matrix.of_apply]
  cases slotted : pattern.slot? p q with
  | none =>
      have none : plan.pattern.slot? i k = none := by
        rw [Option.eq_none_iff_forall_ne_some]
        intro slot slotted'
        have found := moved.slot?_eq_some_iff.mp slotted'
        obtain ⟨index, index', found, found', member⟩ :=
          mem_entries.mp (List.mem_of_getElem? found)
        obtain rfl : p.val = index :=
          Option.some.inj (foundRow.symm.trans found)
        obtain rfl : q.val = index' :=
          Option.some.inj (foundCol.symm.trans found')
        obtain ⟨slot, here⟩ := List.mem_iff_getElem?.mp member
        rw [regular.wellFormed.slot?_eq_some_iff.mpr here] at slotted
        cases slotted
      rw [Plan.valueAt, none]
  | some slot =>
      have here := regular.wellFormed.slot?_eq_some_iff.mp slotted
      obtain ⟨new, target, found⟩ :=
        regular.relabels.exists_slot regular.valid foundRow foundCol here
      have inside : new < factor.matrix.size := by
        rw [holds.fits.matrix_size, Plan.matrixCount, ← moved.length_entries]
        exact (List.getElem?_eq_some_iff.mp found).1
      have held := Array.getElem?_eq_getElem inside
      rw [Plan.valueAt_of_entry regular found held]
      rw [holds.matrix slot new target] at held
      simp [Array.getD_eq_getD_getElem?, held]

theorem Factor.Holds.pivotAt_eq
    (holds : factor.Holds plan settings values numbers) {k : Nat}
    (inside : k < plan.size) : factor.pivotAt k = (numbers.pivot k).kept := by
  rw [pivotAt, getD_of_getElem? (holds.diagonal k inside)]

theorem find?_beq (cols : List Nat) (col : Nat) :
    cols.find? (fun other => other == col) =
      if col ∈ cols then some col else none := by
  induction cols with
  | nil => rfl
  | cons other rest ih =>
      by_cases same : other = col
      · simp [same]
      · simp [same, Ne.symm same, ih]

theorem Factor.Holds.lowerAt_eq (regular : plan.Regular pattern signs)
    (holds : factor.Holds plan settings values numbers) {row col : Nat}
    (inside : row < plan.size) :
    factor.lowerAt plan row col =
      if col ∈ plan.rowColumns row then numbers.multiplier row col else 0 := by
  have steps : plan.stepsAt row = (plan.rowColumns row).map
      fun col => ⟨col, factorSlot plan.rowLists col row⟩ :=
    regular.stepsAt_eq inside
  have found : (plan.stepsAt row).find? (fun step => step.col == col) =
      if col ∈ plan.rowColumns row then
        some ⟨col, factorSlot plan.rowLists col row⟩
      else none := by
    rw [steps, List.find?_map]
    exact (congrArg _ (find?_beq (plan.rowColumns row) col)).trans
      (apply_ite ..)
  rw [lowerAt, found]
  by_cases member : col ∈ plan.rowColumns row
  · simp [member, Array.getD_eq_getD_getElem?, holds.lower row col member]
  · simp [member]

theorem Factor.Holds.unitLower_apply (regular : plan.Regular pattern signs)
    (holds : factor.Holds plan settings values numbers)
    {i k : Fin pattern.size} :
    factor.unitLower plan pattern.size i k = numbers.unit plan i k := by
  have inside : i.val < plan.size := by
    rw [regular.size_eq]
    exact i.isLt
  rw [unitLower, Matrix.of_apply, holds.lowerAt_eq regular inside,
    Numbers.unit]
  simp only [Fin.ext_iff]

end QuasiDefinite
