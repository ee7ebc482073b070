import Mathlib.Order.Bounds.Basic
import QuasiDefinite.Proofs.Factor.Answers

namespace QuasiDefinite

variable {α : Type} {plan : Plan} {pattern : Pattern} {signs : Array Sign}
  {factor : Factor α} {space : Workspace α} {rhs x v r : Array α}
  {tolerance : α} {limit : Nat}

theorem isLeast_of_next {first least : Nat} {stops : Nat → Prop}
    (goes : ¬ stops first)
    (later : IsLeast {step | first + 1 ≤ step ∧ stops step} least) :
    IsLeast {step | first ≤ step ∧ stops step} least := by
  refine ⟨⟨Nat.le_of_succ_le later.1.1, later.1.2⟩, ?_⟩
  rintro step ⟨le, here⟩
  refine later.2 ⟨Nat.lt_of_le_of_ne le ?_, here⟩
  rintro rfl
  exact goes here

namespace Factor

/-! The two orders undo each other. -/

theorem permuted_of_unpermuted (regular : plan.Regular pattern signs)
    {x' : Array α} (v_size : v.size = plan.size) (x_size : x.size = plan.size)
    (writes : unpermuted plan v x = .ok x') : permuted plan x' = .ok v := by
  obtain ⟨new, ran, new_size, written⟩ :=
    unpermuted_runs regular v_size x_size
  obtain rfl : new = x' := Except.ok.inj (ran.symm.trans writes)
  obtain ⟨again, ran', again_size, moved⟩ := permuted_runs regular new_size
  refine ran'.trans (congrArg _ ?_)
  refine Checked.ext_of_size again_size v_size fun place inside => ?_
  rw [regular.size_eq] at inside
  obtain ⟨index, _, found, _⟩ := regular.valid.exists_order inside
  rw [moved place index found, written place index found]

theorem unpermuted_of_permuted (regular : plan.Regular pattern signs)
    {target : Array α} (x_size : x.size = plan.size)
    (target_size : target.size = plan.size)
    (permutes : permuted plan x = .ok v) :
    unpermuted plan v target = .ok x := by
  obtain ⟨new, ran, new_size, moved⟩ := permuted_runs regular x_size
  obtain rfl : new = v := Except.ok.inj (ran.symm.trans permutes)
  obtain ⟨again, ran', again_size, written⟩ :=
    unpermuted_runs regular new_size target_size
  refine ran'.trans (congrArg _ ?_)
  refine Checked.ext_of_size again_size x_size fun index inside => ?_
  rw [regular.size_eq] at inside
  obtain ⟨place, _, _, found⟩ := regular.valid.exists_place inside
  rw [written place index found, moved place index found]

variable [Scalar α]

/-- Whatever the workspace, `norm` is measured as the norm of what `x` leaves
of the right hand side. -/
def Measures (factor : Factor α) (plan : Plan) (rhs x : Array α) (norm : α) :
    Prop :=
  ∀ space : Workspace α, space.Fits plan.size → ∃ value next,
    residualNormSq plan factor space rhs x = .ok (.answer next value) ∧
      Scalar.sqrt value = norm

theorem measures_of_residualOf (rhs_size : rhs.size = plan.size)
    (x_size : x.size = plan.size) (v_size : v.size = plan.size)
    (permutes : permuted plan x = .ok v)
    (left : residualOf plan factor rhs v = .ok r) :
    factor.Measures plan rhs x (Scalar.sqrt (normSq r)) := by
  intro space fitsSpace
  exact ⟨_, _, residualNormSq_eq fitsSpace rhs_size x_size v_size permutes left,
    rfl⟩

theorem Measures.unique {norm norm' : α}
    (measures : factor.Measures plan rhs x norm)
    (measures' : factor.Measures plan rhs x norm') : norm = norm' := by
  have fitsSpace := Workspace.fits_ofSize (α := α) plan.size
  obtain ⟨value, next, ran, rfl⟩ := measures _ fitsSpace
  obtain ⟨value', next', ran', rfl⟩ := measures' _ fitsSpace
  cases ran.symm.trans ran'
  rfl

/-- A solution after one step: what is solved for its residual is added. -/
def corrected (plan : Plan) (factor : Factor α) (rhs x : Array α) :
    Checked (Array α) := do
  let v ← permuted plan x
  let correction ← substitute plan factor (← residualOf plan factor rhs v)
  unpermuted plan (Array.zipWith (· + ·) v correction) x

/-- Solutions that are each corrected to the next, with the norms that are
measured of them. -/
structure Corrections (factor : Factor α) (plan : Plan) (rhs : Array α) where
  solution : Nat → Array α
  norm : Nat → α
  size_eq : ∀ step, (solution step).size = plan.size
  next : ∀ step,
    corrected plan factor rhs (solution step) = .ok (solution (step + 1))
  measured : ∀ step, factor.Measures plan rhs (solution step) (norm step)

theorem corrected_runs (regular : plan.Regular pattern signs)
    (fits : factor.Fits plan) (rhs_size : rhs.size = plan.size)
    (x_size : x.size = plan.size) :
    ∃ x', corrected plan factor rhs x = .ok x' ∧ x'.size = plan.size := by
  obtain ⟨v, permutes, v_size, _⟩ := permuted_runs regular x_size
  obtain ⟨r, left, r_size⟩ := residualOf_runs regular fits rhs_size v_size
  obtain ⟨c, _, solves, reads, _⟩ :=
    substitute_runs regular fits (reads_getD r_size 0)
  have sum_size : (Array.zipWith (· + ·) v c).size = plan.size := by
    simp [v_size, reads.1]
  obtain ⟨x', writes, x'_size, _⟩ := unpermuted_runs regular sum_size x_size
  refine ⟨x', ?_, x'_size⟩
  rw [corrected, permutes, Checked.ok_bind, left, Checked.ok_bind, solves,
    Checked.ok_bind, writes]

theorem exists_measures (regular : plan.Regular pattern signs)
    (fits : factor.Fits plan) (rhs_size : rhs.size = plan.size)
    (x_size : x.size = plan.size) :
    ∃ norm, factor.Measures plan rhs x norm := by
  obtain ⟨v, permutes, v_size, _⟩ := permuted_runs regular x_size
  obtain ⟨r, left, _⟩ := residualOf_runs regular fits rhs_size v_size
  exact ⟨_, measures_of_residualOf rhs_size x_size v_size permutes left⟩

theorem exists_corrections (regular : plan.Regular pattern signs)
    (fits : factor.Fits plan) (rhs_size : rhs.size = plan.size)
    (x_size : x.size = plan.size) :
    ∃ corrections : factor.Corrections plan rhs,
      corrections.solution 0 = x := by
  have step (x : { x : Array α // x.size = plan.size }) :
      ∃ x' : { x : Array α // x.size = plan.size },
        corrected plan factor rhs x = .ok x'.val := by
    obtain ⟨x', ran, x'_size⟩ := corrected_runs regular fits rhs_size x.2
    exact ⟨⟨x', x'_size⟩, ran⟩
  choose next next_eq using step
  choose norm measured using
    fun x : { x : Array α // x.size = plan.size } =>
      exists_measures regular fits rhs_size x.2
  let solution (step : Nat) := next^[step] ⟨x, x_size⟩
  refine ⟨⟨fun step => solution step, fun step => norm (solution step),
    fun step => (solution step).2, fun step => ?_,
    fun step => measured (solution step)⟩, rfl⟩
  dsimp only [solution]
  rw [Function.iterate_succ_apply']
  exact next_eq _

namespace Corrections

variable (corrections : factor.Corrections plan rhs)

def Stops (tolerance : α) (limit step : Nat) : Prop :=
  Scalar.lt tolerance (corrections.norm step) = false ∨ step = limit ∨
    Scalar.le (corrections.norm step) (corrections.norm (step + 1)) = true

/-- A refinement ended at the first step to stop at, with the solution and the
norms that belong to it. -/
structure Ends (tolerance : α) (limit : Nat) (refinement : Refinement α)
    (x : Array α) : Prop where
  least : IsLeast {step | corrections.Stops tolerance limit step}
    refinement.steps
  returned : x = corrections.solution refinement.steps
  before : refinement.before = corrections.norm 0
  after : refinement.after = corrections.norm refinement.steps

structure Reached (state : Refining α) : Prop where
  fits : state.space.Fits plan.size
  solution : permuted plan (corrections.solution state.steps) =
    .ok state.space.solution
  norm : state.norm = corrections.norm state.steps

variable {corrections}

/-- One step. The solution before it is kept in the work vector. -/
theorem step_runs (regular : plan.Regular pattern signs)
    (fits : factor.Fits plan) (rhs_size : rhs.size = plan.size)
    {state : Refining α} (reached : corrections.Reached state)
    (left : residualOf plan factor rhs state.space.solution =
      .ok state.space.residual) :
    ∃ corrected value next, correct plan factor state.space = .ok corrected ∧
      residual plan factor rhs corrected = .ok (value, next) ∧
      Scalar.sqrt value = corrections.norm (state.steps + 1) ∧
      next.work = state.space.solution ∧ next.work.size = plan.size ∧
      corrections.Reached
        ⟨next, state.steps + 1, corrections.norm (state.steps + 1)⟩ ∧
      residualOf plan factor rhs next.solution = .ok next.residual := by
  obtain ⟨space, steps, norm⟩ := state
  obtain ⟨fitsSpace, permutes, _⟩ := reached
  dsimp only at fitsSpace permutes left ⊢
  obtain ⟨c, _, solves, reads, _⟩ :=
    substitute_runs regular fits (reads_getD fitsSpace.residual_size 0)
  let v := Array.zipWith (· + ·) space.solution c
  have v_size : v.size = plan.size := by
    simp [v, fitsSpace.solution_size, reads.1]
  have writes : unpermuted plan v (corrections.solution steps) =
      .ok (corrections.solution (steps + 1)) := by
    have next := corrections.next steps
    rwa [corrected, permutes, Checked.ok_bind, left, Checked.ok_bind, solves,
      Checked.ok_bind] at next
  have permutes' := permuted_of_unpermuted regular v_size
    (corrections.size_eq steps) writes
  obtain ⟨r, left', r_size⟩ := residualOf_runs regular fits rhs_size v_size
  have measured := measures_of_residualOf rhs_size
    (corrections.size_eq (steps + 1)) v_size permutes' left'
  have fitsNew : Workspace.Fits ⟨space.solution, c, v⟩ plan.size :=
    ⟨fitsSpace.solution_size, reads.1, v_size⟩
  refine ⟨⟨space.solution, c, v⟩, normSq r, ⟨space.solution, r, v⟩, ?_,
    residual_eq fitsNew left', measured.unique (corrections.measured _), rfl,
    fitsSpace.solution_size, ⟨⟨fitsSpace.solution_size, r_size, v_size⟩,
      permutes', rfl⟩, left'⟩
  rw [correct, solves]
  rfl

theorem refineSteps_follows (regular : plan.Regular pattern signs)
    (fits : factor.Fits plan) (rhs_size : rhs.size = plan.size)
    (tolerance : α) (limit : Nat) (state : Refining α)
    (reached : corrections.Reached state)
    (left : residualOf plan factor rhs state.space.solution =
      .ok state.space.residual) :
    ∃ final, refineSteps plan factor rhs tolerance limit state = .ok final ∧
      corrections.Reached final ∧
      IsLeast {step | state.steps ≤ step ∧
        corrections.Stops tolerance (state.steps + limit) step}
        final.steps := by
  -- By induction on the steps that may still be taken.
  induction limit generalizing state with
  | zero =>
      exact ⟨state, rfl, reached, ⟨le_refl _, .inr (.inl rfl)⟩,
        fun step here => here.1⟩
  | succ limit ih =>
      obtain ⟨corrected, value, next, ran, ran', norm_eq, kept, kept_size,
        reached', left'⟩ := step_runs regular fits rhs_size reached left
      obtain ⟨space, steps, norm⟩ := state
      obtain ⟨fitsSpace, solution, norm_eq'⟩ := reached
      dsimp only at ran norm_eq kept reached' fitsSpace solution norm_eq' ⊢
      subst norm_eq'
      rw [refineSteps]
      dsimp only
      cases above : Scalar.lt tolerance (corrections.norm steps) with
      | false =>
          exact ⟨_, rfl, ⟨fitsSpace, solution, rfl⟩, ⟨le_refl _, .inl above⟩,
            fun step here => here.1⟩
      | true =>
          rw [if_pos rfl, ran, Checked.ok_bind, ran', Checked.ok_bind]
          dsimp only
          rw [norm_eq]
          cases worse : Scalar.le (corrections.norm steps)
              (corrections.norm (steps + 1)) with
          | true =>
              refine ⟨_, rfl, ⟨⟨kept_size, reached'.fits.residual_size,
                kept_size⟩, ?_, rfl⟩, ⟨le_refl _, .inr (.inr worse)⟩,
                fun step here => here.1⟩
              exact solution.trans (congrArg _ kept.symm)
          | false =>
              obtain ⟨final, refines, reached, least⟩ := ih _ reached' left'
              refine ⟨final, refines, reached, isLeast_of_next ?_ ?_⟩
              · rintro (low | last | worse')
                · exact absurd above (ne_true_of_eq_false low)
                · omega
                · exact absurd worse' (ne_true_of_eq_false worse)
              · rwa [Nat.add_right_comm, Nat.add_assoc] at least

theorem refine_follows (regular : plan.Regular pattern signs)
    (fits : factor.Fits plan) (fitsSpace : space.Fits plan.size)
    (rhs_size : rhs.size = plan.size)
    (corrections : factor.Corrections plan rhs) (tolerance : α)
    (limit : Nat) :
    ∃ refinement next x', refine plan factor space rhs (corrections.solution 0)
        tolerance limit =
      .ok ⟨.ok refinement, (next, x'), [.refined refinement.steps
        refinement.before refinement.after]⟩ ∧
      next.Fits plan.size ∧ x'.size = plan.size ∧
      corrections.Ends tolerance limit refinement x' := by
  have x_size := corrections.size_eq 0
  obtain ⟨v, permutes, v_size, _⟩ := permuted_runs regular x_size
  obtain ⟨r, left, r_size⟩ := residualOf_runs regular fits rhs_size v_size
  have measured := measures_of_residualOf rhs_size x_size v_size permutes left
  have first := measured.unique (corrections.measured 0)
  have fitsStart : Workspace.Fits { space with solution := v } plan.size :=
    ⟨fitsSpace.work_size, fitsSpace.residual_size, v_size⟩
  obtain ⟨final, refines, reached, least⟩ := refineSteps_follows regular fits
    rhs_size tolerance limit
    ⟨{ space with solution := v, residual := r }, 0, corrections.norm 0⟩
    ⟨{ fitsStart with residual_size := r_size }, permutes, rfl⟩ left
  have writes := unpermuted_of_permuted regular
    (corrections.size_eq final.steps) x_size reached.solution
  simp only [Nat.zero_add, Nat.zero_le, true_and] at least
  refine ⟨⟨final.steps, corrections.norm 0, final.norm⟩, final.space,
    corrections.solution final.steps, ?_, reached.fits,
    corrections.size_eq final.steps, least, rfl, rfl, reached.norm⟩
  rw [refine, checkResidualLengths_eq_ok fitsSpace rhs_size x_size]
  dsimp only
  rw [permutes, Checked.ok_bind, residual_eq fitsStart left, Checked.ok_bind]
  dsimp only
  rw [first, refines, Checked.ok_bind, writes]
  rfl

end Corrections

theorem refine_refuses {size : Nat} (fitsSpace : space.Fits size)
    (misfit : ¬(rhs.size = plan.size ∧ x.size = plan.size ∧
      size = plan.size)) :
    ∃ error, refine plan factor space rhs x tolerance limit =
      .ok (.refuse (space, x) error) := by
  obtain ⟨error, refused⟩ := checkResidualLengths_refuses fitsSpace misfit
  rw [refine, refused]
  exact ⟨error, rfl⟩

theorem refine_total (regular : plan.Regular pattern signs)
    (fits : factor.Fits plan) (fitsSpace : space.Fits plan.size)
    (rhs x : Array α) (tolerance : α) (limit : Nat) :
    ∃ reply, refine plan factor space rhs x tolerance limit = .ok reply ∧
      reply.state.1.Fits plan.size ∧ reply.state.2.size = x.size := by
  by_cases sizes : rhs.size = plan.size ∧ x.size = plan.size
  · obtain ⟨corrections, rfl⟩ :=
      exists_corrections regular fits sizes.1 sizes.2
    obtain ⟨refinement, next, x', ran, fitsNext, x'_size, _⟩ :=
      corrections.refine_follows regular fits fitsSpace sizes.1 tolerance limit
    exact ⟨_, ran, fitsNext, x'_size.trans (corrections.size_eq 0).symm⟩
  · obtain ⟨error, ran⟩ := refine_refuses fitsSpace
      fun all => sizes ⟨all.1, all.2.1⟩
    exact ⟨_, ran, fitsSpace, rfl⟩

end Factor

variable [Scalar α]

structure Refinement.Reports (refinement : Refinement α) (factor : Factor α)
    (plan : Plan) (rhs x x' : Array α) (limit : Nat) : Prop where
  steps_le : refinement.steps ≤ limit
  unchanged : refinement.steps = 0 → x' = x
  before : factor.Measures plan rhs x refinement.before
  after : factor.Measures plan rhs x' refinement.after

theorem Factor.Corrections.Ends.reports {refinement : Refinement α}
    {corrections : factor.Corrections plan rhs}
    (ends : corrections.Ends tolerance limit refinement x) :
    refinement.Reports factor plan rhs (corrections.solution 0) x limit where
  steps_le := ends.least.2 (.inr (.inl rfl))
  unchanged none := by rw [ends.returned, none]
  before := ends.before ▸ corrections.measured 0
  after := by
    rw [ends.returned, ends.after]
    exact corrections.measured _

end QuasiDefinite
