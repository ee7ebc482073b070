import QuasiDefinite.Proofs.Machine.Order
import QuasiDefinite.Proofs.Session.Refined

namespace QuasiDefinite

variable {plan : Plan} {pattern : Pattern} {signs : Array Sign}
  {factor : Factor Float} {rhs x : Array Float} {tolerance : Float}
  {limit : Nat} {refinement : Refinement Float}

namespace Factor.Corrections

variable {corrections : factor.Corrections plan rhs}

/-- What a refinement does to the norms of the solutions it goes through. -/
structure Descends (corrections : factor.Corrections plan rhs)
    (refinement : Refinement Float) : Prop where
  /-- Only the last step may lead to what is not a number. -/
  isNumber : ∀ step < refinement.steps, (corrections.norm step).isNaN = false
  falls : ∀ step < refinement.steps,
    (corrections.norm (step + 1)).isNaN = false →
    Scalar.lt (corrections.norm (step + 1)) (corrections.norm step) = true
  improves : refinement.before.isNaN = false →
    (refinement.after.isNaN = false ↔
      Scalar.le refinement.after refinement.before = true ∧
      (0 < refinement.steps →
        Scalar.lt refinement.after refinement.before = true))

theorem isNumber_of_not_stops {step : Nat}
    (goes : ¬ corrections.Stops tolerance limit step) :
    (corrections.norm step).isNaN = false := by
  have above : Scalar.lt tolerance (corrections.norm step) = true :=
    Bool.eq_true_of_not_eq_false fun low => goes (.inl low)
  exact (Machine.lt_eq_true_iff.mp above).2.1

theorem lt_of_not_stops {step : Nat}
    (goes : ¬ corrections.Stops tolerance limit step)
    (isNumber : (corrections.norm (step + 1)).isNaN = false) :
    Scalar.lt (corrections.norm (step + 1)) (corrections.norm step) = true := by
  refine Machine.lt_of_not_le (isNumber_of_not_stops goes) isNumber ?_
  exact Bool.eq_false_of_not_eq_true fun worse => goes (.inr (.inr worse))

theorem Ends.not_stops (ends : corrections.Ends tolerance limit refinement x)
    {step : Nat} (before : step < refinement.steps) :
    ¬ corrections.Stops tolerance limit step :=
  fun stops => Nat.not_le.mpr before (ends.least.2 stops)

theorem Ends.lt_first (ends : corrections.Ends tolerance limit refinement x)
    (step : Nat) (inside : step < refinement.steps)
    (isNumber : (corrections.norm (step + 1)).isNaN = false) :
    Scalar.lt (corrections.norm (step + 1)) (corrections.norm 0) = true := by
  induction step with
  | zero => exact lt_of_not_stops (ends.not_stops inside) isNumber
  | succ step ih =>
      have goes := ends.not_stops inside
      exact Machine.lt_trans (lt_of_not_stops goes isNumber)
        (ih (Nat.lt_of_succ_lt inside) (isNumber_of_not_stops goes))

theorem Ends.descends
    (ends : corrections.Ends tolerance limit refinement x) :
    corrections.Descends refinement where
  isNumber step before := isNumber_of_not_stops (ends.not_stops before)
  falls step before isNumber :=
    lt_of_not_stops (ends.not_stops before) isNumber
  improves first := by
    rw [ends.before] at first ⊢
    rw [ends.after]
    refine ⟨fun isNumber => ?_, fun improves =>
      (Machine.le_eq_true_iff.mp improves.1).1⟩
    cases kept : refinement.steps with
    | zero => exact ⟨Machine.le_refl first, (absurd · (Nat.lt_irrefl 0))⟩
    | succ step =>
        rw [kept] at isNumber
        have below := ends.lt_first step (by omega) isNumber
        exact ⟨Machine.le_of_lt below, fun _ => below⟩

end Factor.Corrections

namespace Machine

/-- After any history of factorizations, and after any calls on a session, every
solution is refined through its corrections, each step lowers the norm or leads
to what is not a number and is the last, and so the norm in the end is no more
than it was, and less if a step was kept, exactly when it is a number. -/
theorem refine_descends (constructed : pattern.Constructed) :
    (∀ (rule : OrderRule) (plan : Plan),
      Plan.make pattern signs rule = .ok (.ok plan) →
      ∀ history, ∃ factor : Factor Float,
        Factor.replay plan history = .ok factor ∧
        ∀ (space : Workspace Float) (rhs x : Array Float) (tolerance : Float)
          (limit : Nat), space.Fits plan.size → rhs.size = plan.size →
          x.size = plan.size →
          ∃ (corrections : factor.Corrections plan rhs)
            (refinement : Refinement Float) (next : Workspace Float)
            (x' : Array Float), corrections.solution 0 = x ∧
            Factor.refine plan factor space rhs x tolerance limit =
              .ok ⟨.ok refinement, (next, x'), [.refined refinement.steps
                refinement.before refinement.after]⟩ ∧
            corrections.Ends tolerance limit refinement x' ∧
            corrections.Descends refinement) ∧
    ∀ (settings : Settings Float) (session : Session Float)
      (events : List (Event Float)),
      Session.start pattern signs settings = .ok (.ok (session, events)) →
      ∀ calls, ∃ later, session.run calls = .ok later ∧
        ∀ rhs target, rhs.size = later.size → target.size = later.size →
          ∃ (corrections : later.factor.Corrections later.plan rhs)
            (last : Session Float) (refinement : Refinement Float)
            (next : Session Float) (x : Array Float),
            later.solveInto rhs target =
              .ok (.answer (last, corrections.solution 0) ()) ∧
            later.solveRefined rhs target =
              .ok ⟨.ok refinement, (next, x), [.refined refinement.steps
                refinement.before refinement.after]⟩ ∧
            corrections.Ends later.settings.refineTolerance
              later.settings.refineLimit refinement x ∧
            corrections.Descends refinement := by
  constructor
  · intro rule plan made history
    obtain ⟨regular, _⟩ := Plan.make_regular constructed made
    obtain ⟨factor, ran, fits⟩ := Factor.replay_fits regular history
    refine ⟨factor, ran, ?_⟩
    intro space rhs x tolerance limit fitsSpace rhs_size x_size
    obtain ⟨corrections, rfl⟩ :=
      Factor.exists_corrections regular fits rhs_size x_size
    obtain ⟨refinement, next, x', refines, _, _, ends⟩ :=
      corrections.refine_follows regular fits fitsSpace rhs_size tolerance limit
    exact ⟨corrections, refinement, next, x', rfl, refines, ends, ends.descends⟩
  · intro settings session events started calls
    obtain ⟨_, _, _, _, _, fits⟩ := Session.start_fits constructed started
    obtain ⟨later, ran, fits, _⟩ := Session.run_runs fits calls
    refine ⟨later, ran, fun rhs target rhs_size target_size => ?_⟩
    obtain ⟨corrections, last, refinement, next, x, solved, refines, _, ends⟩ :=
      Session.solveRefined_follows fits rhs_size target_size
    exact ⟨corrections, last, refinement, next, x, solved, refines, ends,
      ends.descends⟩

def lone : Plan where
  order := .identity 1
  signs := #[.positive]
  pattern := ⟨1, ⟨#[0, 1], #[0]⟩⟩
  slot := #[0]
  parent := #[none]
  lower := ⟨#[0, 0], #[]⟩
  rows := ⟨#[0, 0], #[]⟩
  slots := #[]

theorem refine_descends_lone :
    ∃ factor : Factor Float, Factor.replay lone
        [({ Settings.standard with dynamicDelta := 1e-300 }, #[0])] =
          .ok factor ∧
      ∃ (corrections : factor.Corrections lone #[1e8])
        (refinement : Refinement Float) (next : Workspace Float)
        (x' : Array Float), corrections.solution 0 = #[1e308] ∧
        Factor.refine lone factor (.ofSize 1) #[1e8] #[1e308] 1e-12 3 =
          .ok ⟨.ok refinement, (next, x'), [.refined refinement.steps
            refinement.before refinement.after]⟩ ∧
        corrections.Ends 1e-12 3 refinement x' ∧
        corrections.Descends refinement := by
  have constructed : Pattern.Constructed ⟨1, ⟨#[0, 1], #[0]⟩⟩ :=
    .upper (by cbv : Pattern.ofUpperEntries 1 [] = _)
  have made : Plan.make ⟨1, ⟨#[0, 1], #[0]⟩⟩ #[.positive] .natural =
      .ok (.ok lone) := by
    cbv
  obtain ⟨factor, ran, refines⟩ := (refine_descends constructed).1 .natural lone
    made [({ Settings.standard with dynamicDelta := 1e-300 }, #[0])]
  exact ⟨factor, ran, refines (.ofSize 1) #[1e8] #[1e308] 1e-12 3
    (Workspace.fits_ofSize 1) rfl rfl⟩

/-- It is not true that a refinement of numbers ends with a number. Here a zero
was lifted to a pivot so small that the correction is infinite. -/
theorem refine_misses_number :
    ¬ ∀ (pattern : Pattern) (signs : Array Sign) (settings : Settings Float)
        (plan : Plan) (values : Array Float)
        (reply : Reply Float (Factor Float) (Summary Float))
        (summary : Summary Float) (space : Workspace Float)
        (rhs x : Array Float) (tolerance : Float) (limit : Nat)
        (reply' : Reply Float (Workspace Float × Array Float)
          (Refinement Float)) (refinement : Refinement Float),
      pattern.Constructed →
      Plan.make pattern signs settings.order = .ok (.ok plan) →
      settings.validate = .ok () →
      (∀ value ∈ values, Scalar.isFinite value = true) →
      Factor.factorize plan settings values (.fresh plan) = .ok reply →
      reply.result = .ok summary →
      (∀ value ∈ rhs, Scalar.isFinite value = true) →
      Factor.refine plan reply.state space rhs x tolerance limit = .ok reply' →
      reply'.result = .ok refinement → refinement.before.isNaN = false →
      refinement.after.isNaN = false ∧
        Scalar.le refinement.after refinement.before = true ∧
        (0 < refinement.steps →
          Scalar.lt refinement.after refinement.before = true) := by
  intro claim
  have constructed : Pattern.Constructed ⟨1, ⟨#[0, 1], #[0]⟩⟩ :=
    .upper (by cbv : Pattern.ofUpperEntries 1 [] = _)
  have made : Plan.make ⟨1, ⟨#[0, 1], #[0]⟩⟩ #[.positive] .natural =
      .ok (.ok lone) := by
    cbv
  let settings := { Settings.standard with
    order := .natural, dynamicDelta := 1e-300 }
  have evaluated :
      ((Factor.factorize lone settings #[0] (.fresh lone)).toOption.bind
        fun reply => (Factor.refine lone reply.state (.ofSize 1) #[1e8]
          #[1e308] 1e-12 3).toOption.map fun reply' =>
            (reply.result.toOption.isSome, reply'.result.toOption.map
              fun refinement =>
                (refinement.before.isNaN, refinement.after.isNaN))) =
        some (true, some (false, true)) := by
    decide +kernel
  obtain ⟨reply, ran, refined⟩ := Option.bind_eq_some_iff.mp evaluated
  obtain ⟨reply', ran', shown⟩ := Option.map_eq_some_iff.mp refined
  obtain ⟨succeeded, ended⟩ := Prod.mk.inj shown
  obtain ⟨summary, succeeded⟩ := Option.isSome_iff_exists.mp succeeded
  obtain ⟨refinement, ended, shown⟩ := Option.map_eq_some_iff.mp ended
  obtain ⟨before, after⟩ := Prod.mk.inj shown
  have improves := claim _ _ settings lone #[0] reply summary (.ofSize 1)
    #[1e8] #[1e308] 1e-12 3 reply' refinement constructed made
    (by decide +kernel) (by decide +kernel) (Checked.eq_ok_of_toOption ran)
    (Checked.eq_ok_of_toOption succeeded) (by decide +kernel)
    (Checked.eq_ok_of_toOption ran') (Checked.eq_ok_of_toOption ended) before
  exact absurd after (ne_true_of_eq_false improves.1)

end Machine

end QuasiDefinite
