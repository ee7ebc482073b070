import QuasiDefinite.Proofs.Factor.Sweep

namespace QuasiDefinite.Factor

variable {α : Type} [Scalar α] {plan : Plan} {pattern : Pattern}
  {signs : Array Sign} {rule : OrderRule} {settings : Settings α}
  {values : Array α} {factor factor' : Factor α}

def afterCall (plan : Plan) (factor : Factor α)
    (call : Settings α × Array α) : Checked (Factor α) := do
  let reply ← factorize plan call.1 call.2 factor
  return reply.state

def replay (plan : Plan) (history : List (Settings α × Array α)) :
    Checked (Factor α) :=
  history.foldlM (afterCall plan) (fresh plan)

theorem Fits.factorize_runs (regular : plan.Regular pattern signs)
    (fits : factor.Fits plan) (settings : Settings α) (values : Array α) :
    ∃ reply, factorize plan settings values factor = .ok reply ∧
      reply.state.Fits plan := by
  by_cases values_size : plan.matrixCount = values.size
  · cases accepted : rejected settings values with
    | none =>
        obtain ⟨new, numbers, ran, holds⟩ :=
          Factor.factorize_runs regular fits values_size.symm accepted
        exact ⟨_, ran, holds.fits⟩
    | some slot =>
        exact ⟨_, factorize_of_rejected values_size accepted,
          fits.matrix_size, fits.lower_size, fits.diagonal_size,
          fits.inverse_size, fits.work⟩
  · exact ⟨_, factorize_of_misfit values_size, fits⟩

theorem accepted_of_factorize {reply : Reply α (Factor α) (Summary α)}
    {summary : Summary α}
    (ran : factorize plan settings values factor = .ok reply)
    (succeeded : reply.result = .ok summary) :
    values.size = plan.matrixCount ∧ rejected settings values = none := by
  by_cases count : plan.matrixCount = values.size
  · refine ⟨count.symm, ?_⟩
    cases found : rejected settings values with
    | none => rfl
    | some slot =>
        rw [factorize_of_rejected count found] at ran
        cases ran
        cases succeeded
  · rw [factorize_of_misfit count] at ran
    cases ran
    cases succeeded

/-- Values of the right number are refused for one that is not finite, and
then only the status of the factor changes. -/
theorem refused_of_factorize {reply : Reply α (Factor α) (Summary α)}
    {error : Error α} (values_size : values.size = plan.matrixCount)
    (ran : factorize plan settings values factor = .ok reply)
    (refused : reply.result = .error error) :
    ∃ slot, error = .nonFinite slot ∧
      reply.state = { factor with ready := false } := by
  cases found : rejected settings values with
  | none =>
      rw [factorize_of_accepted values_size.symm found] at ran
      simp only [Checked.bind_eq_ok_iff] at ran
      obtain ⟨_, _, _, _, made⟩ := ran
      cases made
      cases refused
  | some slot =>
      rw [factorize_of_rejected values_size.symm found] at ran
      cases ran
      cases refused
      exact ⟨slot, rfl, rfl⟩

theorem holds_of_factorize (regular : plan.Regular pattern signs)
    (fits : factor.Fits plan) {reply : Reply α (Factor α) (Summary α)}
    {summary : Summary α}
    (ran : factorize plan settings values factor = .ok reply)
    (succeeded : reply.result = .ok summary) :
    summary = reply.state.summary ∧
      ∃ numbers, reply.state.Holds plan settings values numbers := by
  obtain ⟨values_size, accepted⟩ := accepted_of_factorize ran succeeded
  obtain ⟨new, numbers, ran', holds⟩ :=
    factorize_runs regular fits values_size accepted
  rw [ran'] at ran
  cases ran
  cases succeeded
  exact ⟨rfl, numbers, holds⟩

/-- A call that succeeds gives the same reply on any arrays that fit. -/
theorem factorize_congr (regular : plan.Regular pattern signs)
    (fits : factor.Fits plan) (fits' : factor'.Fits plan)
    {reply : Reply α (Factor α) (Summary α)} {summary : Summary α}
    (ran : factorize plan settings values factor = .ok reply)
    (succeeded : reply.result = .ok summary) :
    factorize plan settings values factor' = .ok reply := by
  obtain ⟨values_size, accepted⟩ := accepted_of_factorize ran succeeded
  obtain ⟨new, numbers, ran', holds⟩ :=
    factorize_runs regular fits values_size accepted
  obtain ⟨new', numbers', ran'', holds'⟩ :=
    factorize_runs regular fits' values_size accepted
  obtain rfl := holds.unique regular holds'
  rw [← holds.pivots_eq regular holds', ← ran', ran] at ran''
  exact ran''

theorem replay_fits (regular : plan.Regular pattern signs)
    (history : List (Settings α × Array α)) :
    ∃ factor, replay plan history = .ok factor ∧ factor.Fits plan := by
  refine Checked.foldlM_runs (fun _ (factor : Factor α) => factor.Fits plan)
    fits_fresh ?_
  intro _ call _ factor _ fits
  obtain ⟨reply, ran, fits'⟩ := fits.factorize_runs regular call.1 call.2
  refine ⟨reply.state, ?_, fits'⟩
  rw [afterCall, ran]
  rfl

/-- After any history a call that succeeds replies as it would on a fresh
factor: the same result, the same arrays, the same events. What the factor held
in `lower` does not matter. -/
theorem factorize_forgets (constructed : pattern.Constructed)
    (made : Plan.make pattern signs rule = .ok (.ok plan))
    (history : List (Settings α × Array α)) :
    ∃ factor, replay plan history = .ok factor ∧
      factor.work = .replicate plan.size 0 ∧
      ∀ settings values, ∃ reply,
        factorize plan settings values factor = .ok reply ∧
        ∀ summary, reply.result = .ok summary →
          factorize plan settings values (fresh plan) = .ok reply ∧
          ∀ lower, lower.size = plan.factorCount →
            factorize plan settings values { factor with lower } =
              .ok reply := by
  obtain ⟨regular, _, _⟩ := Plan.make_regular constructed made
  obtain ⟨factor, ran, fits⟩ := replay_fits regular history
  refine ⟨factor, ran, fits.work, fun settings values => ?_⟩
  obtain ⟨reply, replied, _⟩ := fits.factorize_runs regular settings values
  refine ⟨reply, replied, fun summary succeeded => ⟨?_, fun lower size => ?_⟩⟩
  · exact factorize_congr regular fits fits_fresh replied succeeded
  · have fits' : Fits { factor with lower } plan :=
      ⟨fits.matrix_size, size, fits.diagonal_size, fits.inverse_size, fits.work⟩
    exact factorize_congr regular fits fits' replied succeeded

/-- An arrow whose head is eliminated second, factored in the arithmetic of the
machine: once as it is, once with an infinite value that no one looks for, and
then as it is again. -/
theorem factorize_forgets_arrow :
    ∃ plan, Plan.make ⟨4, ⟨#[0, 1, 3, 5, 7], #[0, 0, 1, 0, 2, 0, 3]⟩⟩
        #[.positive, .negative, .positive, .negative]
        (.supplied #[2, 0, 3, 1]) = .ok (.ok plan) ∧
      ∃ factor, replay plan
          [(Settings.standard, #[2, 1, -3, 1, 2, 1, -3]),
            ({ Settings.standard with checkFinite := false },
              #[2, 1 / 0, -3, 1, 2, 1, -3])] = .ok factor ∧
        factor.work = .replicate plan.size 0 ∧
        ∃ reply, factorize plan .standard #[2, 1, -3, 1, 2, 1, -3] factor =
            .ok reply ∧
          ∀ summary, reply.result = .ok summary →
            factorize plan .standard #[2, 1, -3, 1, 2, 1, -3] (fresh plan) =
              .ok reply := by
  have constructed : Pattern.Constructed
      ⟨4, ⟨#[0, 1, 3, 5, 7], #[0, 0, 1, 0, 2, 0, 3]⟩⟩ :=
    .upper (by cbv : Pattern.ofUpperEntries 4 [(0, 1), (0, 2), (0, 3)] = _)
  obtain ⟨plan, made, _⟩ := @Plan.make_runs _
    #[.positive, .negative, .positive, .negative] (.supplied #[2, 0, 3, 1])
    constructed rfl (by decide)
  obtain ⟨factor, ran, clean, next⟩ :=
    @factorize_forgets Float _ plan _ _ _ constructed made
    [(Settings.standard, #[2, 1, -3, 1, 2, 1, -3]),
      ({ Settings.standard with checkFinite := false },
        #[2, 1 / 0, -3, 1, 2, 1, -3])]
  obtain ⟨reply, replied, same⟩ := next .standard #[2, 1, -3, 1, 2, 1, -3]
  exact ⟨plan, made, factor, ran, clean, reply, replied,
    fun summary succeeded => (same summary succeeded).1⟩

end QuasiDefinite.Factor
