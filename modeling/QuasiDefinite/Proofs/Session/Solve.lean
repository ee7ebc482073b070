import QuasiDefinite.Proofs.Exact.Solve
import QuasiDefinite.Proofs.Session.Calls

namespace QuasiDefinite

open Matrix

namespace Session

theorem solve_of_size {α : Type} [Scalar α] {session : Session α}
    {pattern : Pattern} {signs : Array Sign}
    (fits : session.Fits pattern signs) {rhs : Array α}
    (rhs_size : rhs.size = session.plan.size) :
    ∃ x next b z, session.solve rhs = .ok ⟨.ok x, next, []⟩ ∧
      x.size = session.plan.size ∧
      Factor.Substitutes session.plan session.factor b z ∧
      ∀ place index : Nat, session.plan.order.order[place]? = some index →
        rhs[index]? = some (b place) ∧ x[index]? = some (z place) := by
  obtain ⟨work, x, b, z, ran, _, x_size, substitutes, ordered⟩ :=
    Factor.solve_runs fits.regular fits.factor fits.space rhs_size
      (Array.size_replicate : (Array.replicate session.size (0 : α)).size = _)
  rw [solve, solveInto, ran]
  exact ⟨x, _, b, z, rfl, x_size, substitutes, ordered⟩

variable {K : Type} [ExactField K] {pattern : Pattern} {signs : Array Sign}
  {settings : Settings K} {session : Session K} {events : List (Event K)}

theorem accepted_iff (fits : session.Fits pattern signs) {values : Array K}
    {reply : Reply K (Factor K) (Summary K)}
    (ran : session.factor.factorize session.plan session.settings values =
      .ok reply) :
    (∃ summary, reply.result = .ok summary) ↔
      values.size = pattern.slotCount := by
  have count : session.plan.matrixCount = pattern.slotCount :=
    fits.regular.relabels.slotCount_eq
  constructor
  · intro succeeded
    obtain ⟨summary, succeeded⟩ := succeeded
    exact (Factor.accepted_of_factorize ran succeeded).1.trans count
  · intro values_size
    obtain ⟨new, numbers, ran', _⟩ := Factor.factorize_runs fits.regular
      fits.factor (values_size.trans count.symm)
      (Factor.rejected_exact session.settings values)
    rw [ran] at ran'
    cases ran'
    exact ⟨_, rfl⟩

/-- After any calls a matrix with values of the right number is accepted, and
every right hand side is then solved for, in natural order and up to the shifts
of the diagonal. Without shifts the solution is that of the matrix itself,
whatever the order of elimination. -/
theorem solve_exact (constructed : pattern.Constructed)
    (started : start pattern signs settings = .ok (.ok (session, events)))
    (calls : List (Call K)) :
    ∃ before, session.run calls = .ok before ∧
      ∀ values, ∃ reply, before.factorize values = .ok reply ∧
        ((∃ summary, reply.result = .ok summary) ↔
          values.size = pattern.slotCount) ∧
        ∀ summary, reply.result = .ok summary →
          ∃ moves shift : Fin pattern.size → K,
            reply.state.factor.Decomposes reply.state.plan pattern signs
              settings values moves ∧
            Shifts (settings.order.listing pattern) signs settings moves
              shift ∧
            ∀ queries, ∃ later, reply.state.ask queries = .ok later ∧
              ∀ rhs, rhs.size = pattern.size → ∃ x next,
                later.solve rhs = .ok ⟨.ok x, next, []⟩ ∧
                x.size = pattern.size ∧
                OnlySolution
                  (pattern.dense values + Matrix.diagonal shift)
                  (components pattern.size rhs) (components pattern.size x) ∧
                (∀ i, (pattern.dense values *ᵥ components pattern.size x -
                    components pattern.size rhs) i =
                  -(shift i * components pattern.size x i)) ∧
                (summary.lifted = 0 → settings.staticReg = 0 →
                  OnlySolution (pattern.dense values)
                    (components pattern.size rhs)
                    (components pattern.size x)) := by
  obtain ⟨validated, signs_size, _, same, listed, fits⟩ :=
    start_fits constructed started
  obtain ⟨before, ran, fitsBefore, keeps⟩ := run_runs fits calls
  refine ⟨before, ran, fun values => ?_⟩
  obtain ⟨reply, counters, replied, factored, fitsNew⟩ :=
    factorize_runs fitsBefore values
  refine ⟨_, factored, accepted_iff fitsBefore replied,
    fun summary succeeded => ?_⟩
  have regular := fitsBefore.regular
  obtain ⟨rfl, numbers, holds⟩ :=
    Factor.holds_of_factorize regular fitsBefore.factor replied succeeded
  rw [keeps.settings, same] at holds
  rw [← keeps.plan] at listed
  have decomposes := holds.decomposes regular signs_size validated
  have accounts := holds.accounts regular signs_size
  obtain ⟨shift, shifts⟩ := exists_shifts regular.valid signs settings
    fun k : Fin pattern.size => numbers.move k
  refine ⟨_, shift, decomposes, listed ▸ shifts, fun queries => ?_⟩
  have fitsAfter : Session.Fits { before with factor := reply.state, counters }
      pattern signs := ⟨regular, fitsNew, fitsBefore.space⟩
  obtain ⟨later, ran, answers⟩ := ask_runs fitsAfter queries
  refine ⟨later, ran, fun rhs rhs_size => ?_⟩
  have plan : later.plan = before.plan := answers.keeps.plan
  have size : later.plan.size = pattern.size := answers.fits.regular.size_eq
  obtain ⟨x, next, b, z, solved, x_size, substitutes, ordered⟩ :=
    solve_of_size answers.fits (rhs_size.trans size.symm)
  rw [answers.factor, plan] at substitutes
  rw [plan] at ordered
  have solution := holds.solution regular signs_size validated shifts
    substitutes ordered
  exact ⟨x, next, solved, x_size.trans size, solution, solution.residual,
    fun none staticReg => solution.of_shift_zero (shifts.eq_zero regular.valid
      (decomposes.moves_eq_zero accounts none) staticReg)⟩

theorem solve_exact_arrow :
    ∃ (session : Session ℚ) (events : List (Event ℚ)),
      start ⟨4, ⟨#[0, 1, 3, 5, 7], #[0, 0, 1, 0, 2, 0, 3]⟩⟩
        #[.positive, .negative, .positive, .negative]
        ⟨.supplied #[2, 0, 3, 1], 1 / 10, 1 / 1000, 1 / 100, 1, true, 0, 3⟩ =
          .ok (.ok (session, events)) ∧
      ∃ before, session.run [.factorize #[2, 1, -3, 1, 2, 1, -3],
          .query (.solveRefined #[1, 2, 3, 4] #[0, 0, 0, 0])] = .ok before ∧
        ∃ reply summary,
          before.factorize #[1 / 2, 1, -3, 1, 2, 1, -3] = .ok reply ∧
          reply.result = .ok summary ∧
          ∃ (shift : Fin 4 → ℚ) (x : Array ℚ) (next : Session ℚ),
            reply.state.solve #[1, 2, 3, 4] = .ok ⟨.ok x, next, []⟩ ∧
            OnlySolution
              (Pattern.dense ⟨4, ⟨#[0, 1, 3, 5, 7], #[0, 0, 1, 0, 2, 0, 3]⟩⟩
                #[1 / 2, 1, -3, 1, 2, 1, -3] + Matrix.diagonal shift)
              (components 4 #[1, 2, 3, 4]) (components 4 x) := by
  have constructed : Pattern.Constructed
      ⟨4, ⟨#[0, 1, 3, 5, 7], #[0, 0, 1, 0, 2, 0, 3]⟩⟩ :=
    .upper (by cbv : Pattern.ofUpperEntries 4 [(0, 1), (0, 2), (0, 3)] = _)
  obtain ⟨session, events, started⟩ := @start_runs ℚ _ _
    #[.positive, .negative, .positive, .negative]
    ⟨.supplied #[2, 0, 3, 1], 1 / 10, 1 / 1000, 1 / 100, 1, true, 0, 3⟩
    constructed rfl (by decide) (by decide +kernel)
  obtain ⟨before, ran, next⟩ := solve_exact constructed started
    [.factorize #[2, 1, -3, 1, 2, 1, -3],
      .query (.solveRefined #[1, 2, 3, 4] #[0, 0, 0, 0])]
  obtain ⟨reply, factored, accepted, solves⟩ :=
    next #[1 / 2, 1, -3, 1, 2, 1, -3]
  obtain ⟨summary, succeeded⟩ := accepted.mpr rfl
  obtain ⟨_, shift, _, _, asked⟩ := solves summary succeeded
  obtain ⟨later, unchanged, solved⟩ := asked []
  cases unchanged
  obtain ⟨x, next, ran', _, solution, _⟩ := solved #[1, 2, 3, 4] rfl
  exact ⟨session, events, started, before, ran, reply, summary, factored,
    succeeded, shift, x, next, ran', solution⟩

end Session

end QuasiDefinite
