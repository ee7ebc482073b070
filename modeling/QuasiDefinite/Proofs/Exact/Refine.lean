import Mathlib.Analysis.Real.Sqrt
import QuasiDefinite.Proofs.Exact.Residual

namespace QuasiDefinite

open Matrix

variable {K : Type} [ExactField K]

/-- A system, the shift with which it was factored, and a first solution. -/
structure Iteration (K : Type) (size : Nat) where
  matrix : Matrix (Fin size) (Fin size) K
  shift : Fin size → K
  rhs : Fin size → K
  start : Fin size → K

namespace Iteration

variable {size : Nat}

def shifted (iteration : Iteration K size) : Matrix (Fin size) (Fin size) K :=
  iteration.matrix + Matrix.diagonal iteration.shift

noncomputable def solutionAt (iteration : Iteration K size) :
    Nat → Fin size → K
  | 0 => iteration.start
  | step + 1 => iteration.solutionAt step + iteration.shifted⁻¹ *ᵥ
      (iteration.rhs - iteration.matrix *ᵥ iteration.solutionAt step)

noncomputable def residualAt (iteration : Iteration K size) (step : Nat) :
    Fin size → K :=
  iteration.rhs - iteration.matrix *ᵥ iteration.solutionAt step

noncomputable def normAt (iteration : Iteration K size) (step : Nat) : K :=
  ExactField.root (iteration.residualAt step ⬝ᵥ iteration.residualAt step)

def Stops (iteration : Iteration K size) (tolerance : K) (limit step : Nat) :
    Prop :=
  iteration.normAt step ≤ tolerance ∨ step = limit ∨
    iteration.normAt step ≤ iteration.normAt (step + 1)

/-- The refinement ended at the first step to stop at, with the solution and the
norms that belong to it. -/
structure Refines (iteration : Iteration K size) (tolerance : K) (limit : Nat)
    (refinement : Refinement K) (x : Fin size → K) : Prop where
  least : IsLeast {step | iteration.Stops tolerance limit step} refinement.steps
  returned : x = iteration.solutionAt refinement.steps
  before : refinement.before = iteration.normAt 0
  after : refinement.after = iteration.normAt refinement.steps
  falls : ∀ step < refinement.steps,
    iteration.normAt (step + 1) < iteration.normAt step
  /-- What a step leaves of the residual is due to the shift. -/
  left : ∀ step, iteration.residualAt (step + 1) =
    Matrix.diagonal iteration.shift *ᵥ
      (iteration.shifted⁻¹ *ᵥ iteration.residualAt step)

theorem lt_of_not_stops {iteration : Iteration K size} {tolerance : K}
    {limit step : Nat} (goes : ¬ iteration.Stops tolerance limit step) :
    iteration.normAt (step + 1) < iteration.normAt step :=
  not_le.mp fun worse => goes (.inr (.inr worse))

theorem residualAt_succ {iteration : Iteration K size}
    (invertible : iteration.shifted.det ≠ 0) (step : Nat) :
    iteration.residualAt (step + 1) = Matrix.diagonal iteration.shift *ᵥ
      (iteration.shifted⁻¹ *ᵥ iteration.residualAt step) := by
  have unit : IsUnit iteration.shifted.det := isUnit_iff_ne_zero.mpr invertible
  have whole : iteration.residualAt step =
      iteration.shifted *ᵥ (iteration.shifted⁻¹ *ᵥ
        iteration.residualAt step) := by
    rw [Matrix.mulVec_mulVec, Matrix.mul_nonsing_inv _ unit,
      Matrix.one_mulVec]
  calc iteration.residualAt (step + 1)
      = iteration.residualAt step - iteration.matrix *ᵥ
          (iteration.shifted⁻¹ *ᵥ iteration.residualAt step) := by
        rw [residualAt, solutionAt, Matrix.mulVec_add, sub_add_eq_sub_sub]
        rfl
    _ = (iteration.shifted - iteration.matrix) *ᵥ
          (iteration.shifted⁻¹ *ᵥ iteration.residualAt step) := by
        rw [Matrix.sub_mulVec, ← whole]
    _ = _ := by rw [shifted, add_sub_cancel_left]

def ofArrays (pattern : Pattern) (values : Array K)
    (shift : Fin pattern.size → K) (rhs x : Array K) :
    Iteration K pattern.size where
  matrix := pattern.dense values
  shift := shift
  rhs := components pattern.size rhs
  start := components pattern.size x

end Iteration

variable {plan : Plan} {pattern : Pattern} {signs : Array Sign}
  {settings : Settings K} {values rhs x : Array K} {factor : Factor K}
  {numbers : Numbers K} {space : Workspace K}
  {iteration : Iteration K pattern.size}

section Corrections

variable (regular : plan.Regular pattern signs)
  (signs_size : signs.size = pattern.size)
  (validated : settings.validate = .ok ())
  (holds : factor.Holds plan settings values numbers)
  (shifts : Shifts plan.order.order signs settings
    (fun k : Fin pattern.size => numbers.move k) iteration.shift)
  (matrix : iteration.matrix = pattern.dense values)
  (sought : iteration.rhs = components pattern.size rhs)
  (rhs_size : rhs.size = pattern.size)

include regular signs_size validated holds shifts matrix sought rhs_size

theorem Factor.Corrections.solution_eq
    (corrections : factor.Corrections plan rhs)
    (first : iteration.start =
      components pattern.size (corrections.solution 0)) (step : Nat) :
    components pattern.size (corrections.solution step) =
      iteration.solutionAt step := by
  induction step with
  | zero => exact first.symm
  | succ step ih =>
      have x_size := (corrections.size_eq step).trans regular.size_eq
      rw [holds.corrected_components regular signs_size validated shifts
        rhs_size x_size (corrections.next step), ih, ← matrix, ← sought]
      rfl

theorem Factor.Corrections.norm_eq
    (corrections : factor.Corrections plan rhs)
    (first : iteration.start =
      components pattern.size (corrections.solution 0)) (step : Nat) :
    corrections.norm step = iteration.normAt step := by
  have x_size := (corrections.size_eq step).trans regular.size_eq
  have same := corrections.solution_eq regular signs_size validated holds shifts
    matrix sought rhs_size first step
  refine (corrections.measured step).unique fun space fitsSpace => ?_
  obtain ⟨next, ran⟩ :=
    holds.residualNormSq_runs regular fitsSpace rhs_size x_size
  rw [same, ← matrix, ← sought] at ran
  exact ⟨_, next, ran, rfl⟩

theorem Factor.refine_runs (invertible : iteration.shifted.det ≠ 0)
    (first : iteration.start = components pattern.size x)
    (x_size : x.size = pattern.size) (fitsSpace : space.Fits plan.size)
    (tolerance : K) (limit : Nat) :
    ∃ refinement next new,
      Factor.refine plan factor space rhs x tolerance limit =
        .ok ⟨.ok refinement, (next, new), [.refined refinement.steps
          refinement.before refinement.after]⟩ ∧
      new.size = pattern.size ∧ iteration.Refines tolerance limit refinement
        (components pattern.size new) := by
  have size_eq := regular.size_eq
  have rhs_size' := rhs_size.trans size_eq.symm
  obtain ⟨corrections, rfl⟩ := Factor.exists_corrections regular holds.fits
    rhs_size' (x_size.trans size_eq.symm)
  obtain ⟨refinement, next, new, ran, _, new_size, least, returned, before,
    after⟩ := corrections.refine_follows regular holds.fits fitsSpace rhs_size'
      tolerance limit
  have norm_eq := corrections.norm_eq regular signs_size validated holds shifts
    matrix sought rhs_size first
  simp only [Factor.Corrections.Stops, norm_eq, Scalar.lt_exact,
    Scalar.le_exact, decide_eq_false_iff_not, not_lt, decide_eq_true_eq]
    at least
  refine ⟨refinement, next, new, ran, new_size.trans size_eq, least, ?_,
    before.trans (norm_eq 0), after.trans (norm_eq _),
    fun step before => Iteration.lt_of_not_stops fun stops =>
      Nat.not_le.mpr before (least.2 stops),
    Iteration.residualAt_succ invertible⟩
  rw [returned]
  exact corrections.solution_eq regular signs_size validated holds shifts matrix
    sought rhs_size first _

end Corrections

/-- The factors are those of the shifted matrix, which is invertible. -/
structure Factor.FactorsShifted (factor : Factor K) (plan : Plan)
    (pattern : Pattern) (values : Array K) (shift : Fin pattern.size → K) :
    Prop where
  product : factor.unitLower plan pattern.size *
      Matrix.diagonal (fun k : Fin pattern.size => factor.pivotAt k) *
      (factor.unitLower plan pattern.size)ᵀ =
    permutationMatrix K pattern.size plan.order.order *
      (pattern.dense values + Matrix.diagonal shift) *
      (permutationMatrix K pattern.size plan.order.order)ᵀ
  invertible : (pattern.dense values + Matrix.diagonal shift).det ≠ 0

theorem Factor.Decomposes.factorsShifted {moves shift : Fin pattern.size → K}
    (valid : plan.order.Valid pattern.size)
    (decomposes : factor.Decomposes plan pattern signs settings values moves)
    (shifts : Shifts plan.order.order signs settings moves shift) :
    factor.FactorsShifted plan pattern values shift where
  product := by
    rw [valid.permutationMatrix_mul, decomposes.submatrix_eq valid shifts]
  invertible := decomposes.det_ne_zero valid shifts

/-- Whatever was factored before, whatever the workspace holds, and from every
first solution: refinement goes through the iteration that belongs to the shift,
and ends at its first step to stop at. -/
theorem Factor.refine_iterates {rule : OrderRule}
    (constructed : pattern.Constructed)
    (signs_size : signs.size = pattern.size)
    (perm : (rule.listing pattern).toList.Perm (List.range pattern.size))
    (validated : settings.validate = .ok ())
    (values_size : values.size = pattern.slotCount) :
    ∃ plan, Plan.make pattern signs rule = .ok (.ok plan) ∧
      plan.order.order = rule.listing pattern ∧
      ∀ history, ∃ factor, replay plan history = .ok factor ∧
        ∃ (new : Factor K) (events : List (Event K))
          (shift : Fin pattern.size → K),
          factorize plan settings values factor =
            .ok ⟨.ok new.summary, new, events⟩ ∧
          new.FactorsShifted plan pattern values shift ∧
          ∀ (space : Workspace K) (rhs x : Array K) (tolerance : K)
            (limit : Nat), space.Fits plan.size → rhs.size = pattern.size →
            x.size = pattern.size → ∃ refinement next x',
              refine plan new space rhs x tolerance limit =
                .ok ⟨.ok refinement, (next, x'), [.refined refinement.steps
                  refinement.before refinement.after]⟩ ∧
              x'.size = pattern.size ∧
              (Iteration.ofArrays pattern values shift rhs x).Refines tolerance
                limit refinement (components pattern.size x') := by
  obtain ⟨plan, made, regular, listed⟩ :=
    Plan.make_runs constructed signs_size perm
  refine ⟨plan, made, listed, fun history => ?_⟩
  obtain ⟨factor, ran, fits⟩ := replay_fits regular history
  obtain ⟨new, numbers, replied, holds⟩ := factorize_runs regular fits
    (values_size.trans regular.relabels.slotCount_eq.symm)
    (rejected_exact settings values)
  obtain ⟨shift, shifts⟩ := exists_shifts regular.valid signs settings
    fun k : Fin pattern.size => numbers.move k
  have factors := (holds.decomposes regular signs_size validated).factorsShifted
    regular.valid shifts
  refine ⟨factor, ran, new, _, shift, replied, factors,
    fun space rhs x tolerance limit fitsSpace rhs_size x_size => ?_⟩
  let iteration := Iteration.ofArrays pattern values shift rhs x
  have matrix : iteration.matrix = pattern.dense values := rfl
  exact Factor.refine_runs regular signs_size validated holds shifts matrix rfl
    rhs_size factors.invertible rfl x_size fitsSpace tolerance limit

/-! Over the reals the norms are the Euclidean ones. -/

noncomputable instance : ExactField ℝ where
  root := Real.sqrt
  unbounded := 0

theorem Iteration.normAt_real {size : Nat} (iteration : Iteration ℝ size)
    (step : Nat) : iteration.normAt step =
      Real.sqrt (∑ i, iteration.residualAt step i ^ 2) := by
  rw [normAt, dotProduct]
  simp only [pow_two]
  rfl

theorem Factor.refine_iterates_arrow :
    ∃ plan : Plan,
      Plan.make ⟨4, ⟨#[0, 1, 3, 5, 7], #[0, 0, 1, 0, 2, 0, 3]⟩⟩
        #[.positive, .negative, .positive, .negative]
        (.supplied #[2, 0, 3, 1]) = .ok (.ok plan) ∧
      ∃ (new : Factor ℝ) (events : List (Event ℝ)) (shift : Fin 4 → ℝ),
        factorize plan ⟨.natural, 1 / 10, 1 / 1000, 1 / 100, 1, true, 0, 3⟩
          #[1 / 2, 1, -3, 1, 2, 1, -3] (fresh plan) =
            .ok ⟨.ok new.summary, new, events⟩ ∧
        new.FactorsShifted plan
          ⟨4, ⟨#[0, 1, 3, 5, 7], #[0, 0, 1, 0, 2, 0, 3]⟩⟩
          #[1 / 2, 1, -3, 1, 2, 1, -3] shift ∧
        ∃ refinement next x', refine plan new (.ofSize plan.size) #[1, 2, 3, 4]
            #[0, 0, 0, 0] (1 / 1000) 3 =
          .ok ⟨.ok refinement, (next, x'), [.refined refinement.steps
            refinement.before refinement.after]⟩ ∧
          (Iteration.ofArrays ⟨4, ⟨#[0, 1, 3, 5, 7], #[0, 0, 1, 0, 2, 0, 3]⟩⟩
            #[1 / 2, 1, -3, 1, 2, 1, -3] shift #[1, 2, 3, 4]
            #[0, 0, 0, 0]).Refines (1 / 1000) 3 refinement
              (components 4 x') := by
  obtain ⟨plan, made, _, after⟩ := @Factor.refine_iterates ℝ _
    ⟨4, ⟨#[0, 1, 3, 5, 7], #[0, 0, 1, 0, 2, 0, 3]⟩⟩
    #[.positive, .negative, .positive, .negative]
    ⟨.natural, 1 / 10, 1 / 1000, 1 / 100, 1, true, 0, 3⟩
    #[1 / 2, 1, -3, 1, 2, 1, -3] (.supplied #[2, 0, 3, 1])
    (.upper (by cbv : Pattern.ofUpperEntries 4 [(0, 1), (0, 2), (0, 3)] =
      .ok ⟨4, ⟨#[0, 1, 3, 5, 7], #[0, 0, 1, 0, 2, 0, 3]⟩⟩))
    rfl (by decide) (by norm_num [Settings.validate]) rfl
  obtain ⟨factor, ran, new, events, shift, replied, factors, refines⟩ :=
    after []
  cases ran
  obtain ⟨refinement, next, x', refined, _, reached⟩ :=
    refines (.ofSize plan.size) #[1, 2, 3, 4] #[0, 0, 0, 0] (1 / 1000) 3
      (Workspace.fits_ofSize plan.size) rfl rfl
  exact ⟨plan, made, new, events, shift, replied, factors, refinement, next, x',
    refined, reached⟩

end QuasiDefinite
