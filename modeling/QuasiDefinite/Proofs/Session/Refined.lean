import QuasiDefinite.Proofs.Session.Calls

namespace QuasiDefinite

variable {α : Type} [Scalar α] {plan : Plan} {pattern : Pattern}
  {signs : Array Sign}

namespace Factor

variable {factor : Factor α} {space : Workspace α} {rhs x : Array α}
  {tolerance : α} {limit : Nat}

/-- Solutions are refined where the lengths fit, and the reports can be checked
by measuring. -/
def RefinesAsMeasured (factor : Factor α) (plan : Plan) : Prop :=
  ∀ (size : Nat) (space : Workspace α) (rhs x : Array α) (tolerance : α)
    (limit : Nat), space.Fits size →
    ∃ reply, refine plan factor space rhs x tolerance limit = .ok reply ∧
      ((∃ refinement, reply.result = .ok refinement) ↔
        rhs.size = plan.size ∧ x.size = plan.size ∧ size = plan.size) ∧
      ∀ refinement, reply.result = .ok refinement →
        refinement.Reports factor plan rhs x reply.state.2 limit

theorem Fits.refinesAsMeasured (regular : plan.Regular pattern signs)
    (fits : factor.Fits plan) : factor.RefinesAsMeasured plan := by
  intro size space rhs x tolerance limit fitsSpace
  by_cases sizes :
      rhs.size = plan.size ∧ x.size = plan.size ∧ size = plan.size
  · obtain ⟨rhs_size, x_size, rfl⟩ := sizes
    obtain ⟨corrections, rfl⟩ :=
      exists_corrections regular fits rhs_size x_size
    obtain ⟨refinement, next, x', ran, _, _, ends⟩ :=
      corrections.refine_follows regular fits fitsSpace rhs_size tolerance limit
    refine ⟨_, ran, iff_of_true ⟨_, rfl⟩ ⟨rhs_size, x_size, rfl⟩, ?_⟩
    intro refinement' same
    cases same
    exact ends.reports
  · obtain ⟨error, ran⟩ := refine_refuses fitsSpace sizes
    exact ⟨_, ran, iff_of_false nofun sizes, nofun⟩

end Factor

namespace Session

variable {session : Session α} {rhs x : Array α} {norm : α}

/-- The norm of what `x` leaves of the right hand side, as the session measures
it. -/
def Measures (session : Session α) (rhs x : Array α) (norm : α) : Prop :=
  ∃ value next, session.residualNormSq rhs x = .ok (.answer next value) ∧
    Scalar.sqrt value = norm

theorem Answers.measures {later : Session α}
    (answers : session.Answers later pattern signs)
    (measures : session.factor.Measures session.plan rhs x norm) :
    later.Measures rhs x norm := by
  rw [← answers.factor, ← answers.keeps.plan] at measures
  obtain ⟨value, space, ran, norm_eq⟩ := measures _ answers.fits.space
  refine ⟨value, { later with space }, ?_, norm_eq⟩
  rw [residualNormSq, ran]
  rfl

/-- Right hand sides are solved for and refined where the lengths fit, and the
reports can be checked by measuring, at once or after any questions. -/
def RefinesAsMeasured (session : Session α) : Prop :=
  ∀ rhs target, ∃ reply, session.solveRefined rhs target = .ok reply ∧
    ((∃ refinement, reply.result = .ok refinement) ↔
      rhs.size = session.size ∧ target.size = session.size) ∧
    ∀ refinement, reply.result = .ok refinement →
      ∃ first, session.solveInto rhs target = .ok first ∧
        first.result = .ok () ∧
        refinement.Reports session.factor session.plan rhs first.state.2
          reply.state.2 session.settings.refineLimit ∧
        ∀ queries, ∃ later, reply.state.1.ask queries = .ok later ∧
          later.Measures rhs first.state.2 refinement.before ∧
          later.Measures rhs reply.state.2 refinement.after

theorem solveRefined_follows (fits : session.Fits pattern signs)
    {target : Array α} (rhs_size : rhs.size = session.size)
    (target_size : target.size = session.size) :
    ∃ (corrections : session.factor.Corrections session.plan rhs)
      (last : Session α) (refinement : Refinement α) (next : Session α)
      (x : Array α),
      session.solveInto rhs target =
        .ok (.answer (last, corrections.solution 0) ()) ∧
      session.solveRefined rhs target =
        .ok ⟨.ok refinement, (next, x), [.refined refinement.steps
          refinement.before refinement.after]⟩ ∧
      session.Answers next pattern signs ∧
      corrections.Ends session.settings.refineTolerance
        session.settings.refineLimit refinement x := by
  obtain ⟨work, first, _, _, solves, work_size, first_size, _⟩ :=
    Factor.solve_runs fits.regular fits.factor fits.space rhs_size target_size
  obtain ⟨corrections, rfl⟩ :=
    Factor.exists_corrections fits.regular fits.factor rhs_size first_size
  have fitsSpace : Workspace.Fits { session.space with work }
      session.plan.size :=
    ⟨work_size, fits.space.residual_size, fits.space.solution_size⟩
  obtain ⟨refinement, space, x, refines, fitsNext, _, ends⟩ :=
    corrections.refine_follows fits.regular fits.factor fitsSpace rhs_size
      session.settings.refineTolerance session.settings.refineLimit
  have solved : session.solveInto rhs target = .ok (.answer
      ({ session with
         space := { session.space with work }
         counters.solves := session.counters.solves + 1 },
        corrections.solution 0) ()) := by
    rw [solveInto, solves]
    rfl
  refine ⟨corrections, _, refinement, { session with
      space, counters.solves := session.counters.solves + 1 }, x, solved, ?_,
    fits.answers fitsNext, ends⟩
  rw [solveRefined, solved, Checked.ok_bind]
  dsimp only [Reply.answer]
  rw [refines]
  rfl

theorem solveRefined_refuses {target : Array α}
    (misfit : ¬(rhs.size = session.size ∧ target.size = session.size)) :
    ∃ next error, session.solveRefined rhs target =
      .ok (.refuse (next, target) error) := by
  obtain ⟨error, refused⟩ := @Factor.solve_refuses _ _ session.plan
    session.factor session.space rhs target misfit
  rw [solveRefined, solveInto, refused]
  exact ⟨_, error, rfl⟩

theorem Fits.refinesAsMeasured (fits : session.Fits pattern signs) :
    session.RefinesAsMeasured := by
  intro rhs target
  by_cases sizes : rhs.size = session.size ∧ target.size = session.size
  · obtain ⟨corrections, last, refinement, next, x, solved, ran, answers,
      ends⟩ := solveRefined_follows fits sizes.1 sizes.2
    refine ⟨_, ran, iff_of_true ⟨_, rfl⟩ sizes, ?_⟩
    intro refinement' same
    cases same
    refine ⟨_, solved, rfl, ends.reports, fun queries => ?_⟩
    obtain ⟨later, asked, answers'⟩ := ask_runs answers.fits queries
    have answers' := answers.trans answers'
    exact ⟨later, asked, answers'.measures ends.reports.before,
      answers'.measures ends.reports.after⟩
  · obtain ⟨next, error, ran⟩ := solveRefined_refuses sizes
    exact ⟨_, ran, iff_of_false nofun sizes, nofun⟩

/-- After any history of factorizations, and after any calls on a session, a
refinement reports what is measured of the solutions that it starts from and
returns, and returns the one that it starts from when it keeps no step. -/
theorem refined_as_measured (constructed : pattern.Constructed) :
    (∀ (rule : OrderRule) (plan : Plan),
      Plan.make pattern signs rule = .ok (.ok plan) →
      ∀ history, ∃ factor : Factor α, Factor.replay plan history = .ok factor ∧
        factor.RefinesAsMeasured plan) ∧
    ∀ (settings : Settings α) (session : Session α) (events : List (Event α)),
      start pattern signs settings = .ok (.ok (session, events)) →
      ∀ calls, ∃ later, session.run calls = .ok later ∧
        later.RefinesAsMeasured := by
  constructor
  · intro rule plan made history
    obtain ⟨regular, _⟩ := Plan.make_regular constructed made
    obtain ⟨factor, ran, fits⟩ := Factor.replay_fits regular history
    exact ⟨factor, ran, fits.refinesAsMeasured regular⟩
  · intro settings session events started calls
    obtain ⟨_, _, _, _, _, fits⟩ := start_fits constructed started
    obtain ⟨later, ran, fits, _⟩ := run_runs fits calls
    exact ⟨later, ran, fits.refinesAsMeasured⟩

theorem refined_as_measured_arrow :
    ∃ (session : Session Float) (events : List (Event Float)),
      start ⟨4, ⟨#[0, 1, 3, 5, 7], #[0, 0, 1, 0, 2, 0, 3]⟩⟩
        #[.positive, .negative, .positive, .negative]
        { Settings.standard with order := .supplied #[2, 0, 3, 1] } =
          .ok (.ok (session, events)) ∧
      ∃ later, session.run [.factorize #[2, 1, -3, 1, 2, 1, -3],
          .factorize #[2, 0 / 0, -3, 1, 2, 1, -3]] = .ok later ∧
        later.RefinesAsMeasured := by
  have constructed : Pattern.Constructed
      ⟨4, ⟨#[0, 1, 3, 5, 7], #[0, 0, 1, 0, 2, 0, 3]⟩⟩ :=
    .upper (by cbv : Pattern.ofUpperEntries 4 [(0, 1), (0, 2), (0, 3)] = _)
  obtain ⟨session, events, started⟩ := @start_runs Float _ _
    #[.positive, .negative, .positive, .negative]
    { Settings.standard with order := .supplied #[2, 0, 3, 1] }
    constructed rfl (by decide) (by decide +kernel)
  exact ⟨session, events, started,
    (refined_as_measured constructed).2 _ session events started _⟩

end Session

end QuasiDefinite
