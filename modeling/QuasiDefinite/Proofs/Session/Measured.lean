import QuasiDefinite.Proofs.Exact.Defect
import QuasiDefinite.Proofs.Exact.Residual
import QuasiDefinite.Proofs.Session.Factored
import QuasiDefinite.Proofs.Session.Record

namespace QuasiDefinite

open Matrix

variable {K : Type} [ExactField K] {pattern : Pattern} {signs : Array Sign}
  {settings : Settings K} {values rhs x : Array K}

/-- The squared norm of what a solution leaves of the right hand side. -/
def Pattern.residualNormSq (pattern : Pattern) (values rhs x : Array K) : K :=
  ∑ i : Fin pattern.size, (components pattern.size rhs i -
    ∑ j, pattern.dense values i j * components pattern.size x j) ^ 2

theorem Pattern.residualNormSq_eq :
    pattern.residualNormSq values rhs x =
      (components pattern.size rhs -
          pattern.dense values *ᵥ components pattern.size x) ⬝ᵥ
        (components pattern.size rhs -
          pattern.dense values *ᵥ components pattern.size x) :=
  Finset.sum_congr rfl fun _ _ => pow_two _

/-- A call that offers no values to the arithmetic. -/
def Call.Idle {α : Type} [Scalar α] (call : Call α) (pattern : Pattern) :
    Prop :=
  ∀ values, call.offer? pattern ≠ some (.ok values)

namespace Session

section Calls

variable {α : Type} [Scalar α] {session : Session α}

theorem afterCall_answers (fits : session.Fits pattern signs)
    (same : session.pattern = pattern) {call : Call α}
    (idle : call.Idle pattern) :
    ∃ next, session.afterCall call = .ok next ∧
      session.Answers next pattern signs := by
  rw [← same] at idle
  cases offer : call.offer? session.pattern with
  | none => cases call with
    | query query => exact afterQuery_runs fits query
    | factorize | factorizeMatrix => cases offer
  | some offered => cases offered with
    | ok values => exact absurd offer (idle values)
    | error error =>
        obtain ⟨_, ran⟩ := refused_runs fits same offer
        exact ⟨session, ran, fits, .refl session, rfl⟩

theorem run_answers (fits : session.Fits pattern signs)
    (same : session.pattern = pattern) {calls : List (Call α)}
    (idle : ∀ call ∈ calls, call.Idle pattern) :
    ∃ next, session.run calls = .ok next ∧
      session.Answers next pattern signs := by
  apply Checked.foldlM_keeps fun next => session.Answers next pattern signs
  · exact ⟨fits, .refl session, rfl⟩
  · intro state call member answers
    obtain ⟨next, ran, answers'⟩ := afterCall_answers answers.fits
      (answers.keeps.pattern.trans same) (idle call member)
    exact ⟨next, ran, answers.trans answers'⟩

end Calls

variable {session : Session K} {events : List (Event K)}

theorem factored_of_offered (constructed : pattern.Constructed)
    (started : start pattern signs settings = .ok (.ok (session, events)))
    (before : List (Call K)) (call : Call K)
    (offered : call.offer? pattern = some (.ok values))
    {after : List (Call K)} (idle : ∀ later ∈ after, later.Idle pattern) :
    ∃ final numbers, session.run (before ++ call :: after) = .ok final ∧
      final.Factored pattern signs settings values numbers := by
  obtain ⟨_, _, pattern_eq, _, _, fits⟩ := start_fits constructed started
  obtain ⟨first, ran, fits, keeps⟩ := run_runs fits before
  have same : first.pattern = pattern := keeps.pattern.trans pattern_eq
  obtain ⟨_, ran', factors⟩ :=
    factored_of_factorize constructed started before
  cases ran.symm.trans ran'
  obtain ⟨reply, values_size, replied, _, called, _⟩ :=
    offered_runs fits same (same ▸ offered)
  obtain ⟨next, numbers, factorized, factored⟩ := factors values
    (values_size.trans fits.regular.relabels.slotCount_eq)
  have alike := (factorize_eq replied).symm.trans factorized
  simp only [Except.ok.injEq, Reply.mk.injEq] at alike
  obtain ⟨_, rfl, _⟩ := alike
  obtain ⟨final, ran', answers⟩ := run_answers factored.fits same idle
  refine ⟨final, numbers, ?_, factored.of_answers answers⟩
  rw [run] at ran ran' ⊢
  rw [List.foldlM_append, ran, Checked.ok_bind, List.foldlM_cons, called,
    Checked.ok_bind, ran']

/-- While a session holds values, the residuals that it measures are those of
the matrix, as it was before the order and the regularization were applied. -/
theorem residual_exact (constructed : pattern.Constructed)
    (started : start pattern signs settings = .ok (.ok (session, events)))
    (before : List (Call K)) (call : Call K)
    (offered : call.offer? pattern = some (.ok values))
    {after : List (Call K)} (idle : ∀ later ∈ after, later.Idle pattern) :
    ∃ final, session.run (before ++ call :: after) = .ok final ∧
      ∀ rhs x, rhs.size = pattern.size → x.size = pattern.size → ∃ next,
        final.residualNormSq rhs x =
          .ok (.answer next (pattern.residualNormSq values rhs x)) ∧
        final.checkResidual rhs x =
          .ok (.answer next (pattern.residualNormSq values rhs x)) := by
  obtain ⟨final, numbers, ran, factored⟩ :=
    factored_of_offered constructed started before call offered idle
  refine ⟨final, ran, fun rhs x rhs_size x_size => ?_⟩
  obtain ⟨space, measures⟩ := factored.holds.residualNormSq_runs
    factored.fits.regular factored.fits.space rhs_size x_size
  rw [← Pattern.residualNormSq_eq] at measures
  have residual : final.residualNormSq rhs x =
      .ok (.answer { final with space }
        (pattern.residualNormSq values rhs x)) := by
    rw [residualNormSq, measures]
    rfl
  refine ⟨_, residual, ?_⟩
  rw [checkResidual, if_pos factored.holds.ready, residual]

theorem residual_exact_arrow :
    ∃ (session : Session ℚ) (events : List (Event ℚ)),
      start ⟨4, ⟨#[0, 1, 3, 5, 7], #[0, 0, 1, 0, 2, 0, 3]⟩⟩
        #[.positive, .negative, .positive, .negative]
        ⟨.supplied #[2, 0, 3, 1], 1 / 10, 1 / 1000, 1 / 100, 1, true, 0, 3⟩ =
          .ok (.ok (session, events)) ∧
      ∃ final, session.run [.factorize #[2, 1, -3, 1, 2, 1, -3],
          .factorize #[1 / 2, 1, -3, 1, 2, 1, -3], .factorize #[2, 1],
          .query (.solve #[1, 2, 3, 4])] = .ok final ∧
        ∃ next, final.checkResidual #[1, 2, 3, 4] #[4, 3, 2, 1] =
          .ok (.answer next (Pattern.residualNormSq
            ⟨4, ⟨#[0, 1, 3, 5, 7], #[0, 0, 1, 0, 2, 0, 3]⟩⟩
            #[1 / 2, 1, -3, 1, 2, 1, -3] #[1, 2, 3, 4] #[4, 3, 2, 1])) := by
  have constructed : Pattern.Constructed
      ⟨4, ⟨#[0, 1, 3, 5, 7], #[0, 0, 1, 0, 2, 0, 3]⟩⟩ :=
    .upper (by cbv : Pattern.ofUpperEntries 4 [(0, 1), (0, 2), (0, 3)] = _)
  obtain ⟨session, events, started⟩ := @start_runs ℚ _ _
    #[.positive, .negative, .positive, .negative]
    ⟨.supplied #[2, 0, 3, 1], 1 / 10, 1 / 1000, 1 / 100, 1, true, 0, 3⟩
    constructed rfl (by decide) (by decide +kernel)
  have idle : ∀ later ∈ [Call.factorize #[(2 : ℚ), 1],
      .query (.solve #[1, 2, 3, 4])],
      later.Idle ⟨4, ⟨#[0, 1, 3, 5, 7], #[0, 0, 1, 0, 2, 0, 3]⟩⟩ := by
    simp [Call.Idle, Call.offer?, Pattern.slotCount]
  obtain ⟨final, ran, measures⟩ := residual_exact constructed started
    [.factorize #[2, 1, -3, 1, 2, 1, -3]]
    (.factorize #[1 / 2, 1, -3, 1, 2, 1, -3]) rfl idle
  obtain ⟨next, _, checked⟩ := measures #[1, 2, 3, 4] #[4, 3, 2, 1] rfl rfl
  exact ⟨session, events, started, final, ran, next, checked⟩

/-- While a session holds values, the defect that it measures is that of the
shifts of the diagonal. -/
theorem defect_exact (constructed : pattern.Constructed)
    (started : start pattern signs settings = .ok (.ok (session, events)))
    (before : List (Call K)) (call : Call K)
    (offered : call.offer? pattern = some (.ok values))
    {after : List (Call K)} (idle : ∀ later ∈ after, later.Idle pattern) :
    ∃ final, session.run (before ++ call :: after) = .ok final ∧
      ∃ (moves : Fin pattern.size → K) (value : K) (next : Session K),
        final.factor.Decomposes final.plan pattern signs settings values moves ∧
        final.factor.summary.Accounts settings
          (fun k : Fin pattern.size =>
            sideAt signs final.plan.order.order k)
          (fun k => final.factor.pivotAt k) moves ∧
        final.defectNormSq = .ok (.answer next value) ∧
        final.factor.HasDefect final.plan pattern signs settings values moves
          value := by
  obtain ⟨final, numbers, ran, factored⟩ :=
    factored_of_offered constructed started before call offered idle
  obtain ⟨space, measures⟩ := factored.holds.defectNormSq_eq
    factored.fits.regular factored.signs_size factored.validated
    factored.fits.space
  refine ⟨final, ran, _, _, { final with space }, factored.decomposes,
    factored.accounts, ?_, factored.decomposes.hasDefect factored.accounts⟩
  rw [defectNormSq, measures]
  rfl

theorem defect_exact_arrow :
    ∃ (session : Session ℚ) (events : List (Event ℚ)),
      start ⟨4, ⟨#[0, 1, 3, 5, 7], #[0, 0, 1, 0, 2, 0, 3]⟩⟩
        #[.positive, .negative, .positive, .negative]
        ⟨.supplied #[2, 0, 3, 1], 1 / 10, 1 / 1000, 1 / 100, 1, true, 0, 3⟩ =
          .ok (.ok (session, events)) ∧
      ∃ final, session.run [.factorize #[1 / 2, 1, -3, 1, 2, 1, -3],
          .query (.solve #[1, 2, 3, 4])] = .ok final ∧
        ∃ (moves : Fin 4 → ℚ) (value : ℚ) (next : Session ℚ),
          final.defectNormSq = .ok (.answer next value) ∧
          final.factor.HasDefect final.plan
            ⟨4, ⟨#[0, 1, 3, 5, 7], #[0, 0, 1, 0, 2, 0, 3]⟩⟩
            #[.positive, .negative, .positive, .negative]
            ⟨.supplied #[2, 0, 3, 1], 1 / 10, 1 / 1000, 1 / 100, 1, true, 0, 3⟩
            #[1 / 2, 1, -3, 1, 2, 1, -3] moves value := by
  have constructed : Pattern.Constructed
      ⟨4, ⟨#[0, 1, 3, 5, 7], #[0, 0, 1, 0, 2, 0, 3]⟩⟩ :=
    .upper (by cbv : Pattern.ofUpperEntries 4 [(0, 1), (0, 2), (0, 3)] = _)
  obtain ⟨session, events, started⟩ := @start_runs ℚ _ _
    #[.positive, .negative, .positive, .negative]
    ⟨.supplied #[2, 0, 3, 1], 1 / 10, 1 / 1000, 1 / 100, 1, true, 0, 3⟩
    constructed rfl (by decide) (by decide +kernel)
  have idle : ∀ later ∈ [Call.query (.solve #[(1 : ℚ), 2, 3, 4])],
      later.Idle ⟨4, ⟨#[0, 1, 3, 5, 7], #[0, 0, 1, 0, 2, 0, 3]⟩⟩ := by
    simp [Call.Idle, Call.offer?]
  obtain ⟨final, ran, moves, value, next, _, _, measured, hasDefect⟩ :=
    defect_exact constructed started []
      (.factorize #[1 / 2, 1, -3, 1, 2, 1, -3]) rfl idle
  exact ⟨session, events, started, final, ran, moves, value, next, measured,
    hasDefect⟩

end Session

end QuasiDefinite
