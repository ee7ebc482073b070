import QuasiDefinite.Proofs.Session.Refined
import QuasiDefinite.Proofs.Session.Total
import QuasiDefinite.Proofs.Sizes.Demands

namespace QuasiDefinite

variable {α : Type}

namespace Session

open Factor (checkLengths)

variable [Scalar α] {session : Session α} {pattern : Pattern}
  {signs : Array Sign} {rhs x target : Array α}

theorem Fits.workspace_met (fits : session.Fits pattern signs)
    (quantity : Quantity) : checkLengths (α := α)
      [(quantity, session.plan.size, session.space.size)] = .ok () := by
  rw [checkLengths_singleton]
  exact checkLength_eq_ok_iff.mpr fits.space.work_size.symm

theorem verdict_solveInto (fits : session.Fits pattern signs)
    {reply : Reply α (Session α × Array α) Unit}
    (ran : session.solveInto rhs target = .ok reply) :
    verdict reply.result =
      checkLengths (solveDemands session.size rhs target) := by
  obtain ⟨solved, solves, made⟩ := Checked.bind_eq_ok_iff.mp ran
  cases made
  exact (Factor.verdict_solve solves).trans
    (checkLengths_append_of_ok (solveDemands session.size rhs target)
      (fits.workspace_met .solveWorkspace))

theorem verdict_solve (fits : session.Fits pattern signs)
    {reply : Reply α (Session α) (Array α)}
    (ran : session.solve rhs = .ok reply) :
    verdict reply.result =
      checkLengths [(.solveRhs, session.size, rhs.size)] := by
  obtain ⟨solved, solves, made⟩ := Checked.bind_eq_ok_iff.mp ran
  cases made
  have met : checkLengths (α := α) [(.solveOutput, session.size,
      (Array.replicate session.size (0 : α)).size)] = .ok () := by
    rw [checkLengths_singleton]
    exact checkLength_eq_ok_iff.mpr Array.size_replicate.symm
  have told := (verdict_solveInto fits solves).trans
    (checkLengths_append_of_ok [(.solveRhs, session.size, rhs.size)] met)
  rw [← told]
  cases solved.result <;> rfl

theorem verdict_solvePair (fits : session.Fits pattern signs)
    {rhs₁ rhs₂ target₁ target₂ : Array α}
    {reply : Reply α (Session α × Array α × Array α) Unit}
    (ran : session.solvePair rhs₁ rhs₂ target₁ target₂ = .ok reply) :
    verdict reply.result = checkLengths
      (solveDemands session.size rhs₁ target₁ ++
        solveDemands session.size rhs₂ target₂) := by
  obtain ⟨first, ran₁, answers⟩ := solveInto_runs fits rhs₁ target₁
  have told := verdict_solveInto fits ran₁
  rw [checkLengths_append, ← told]
  rw [solvePair, ran₁, Checked.ok_bind] at ran
  cases solved : first.result with
  | error error =>
      rw [solved] at ran
      cases ran
      rfl
  | ok _ =>
      rw [solved] at ran
      obtain ⟨second, ran₂, made⟩ := Checked.bind_eq_ok_iff.mp ran
      cases made
      have size : first.state.1.size = session.size :=
        congrArg Plan.size answers.keeps.plan
      have told := verdict_solveInto answers.fits ran₂
      rw [size] at told
      exact told

theorem verdict_solveRefined (fits : session.Fits pattern signs)
    {reply : Reply α (Session α × Array α) (Refinement α)}
    (ran : session.solveRefined rhs target = .ok reply) :
    verdict reply.result =
      checkLengths (solveDemands session.size rhs target) := by
  obtain ⟨first, ran₁, _⟩ := solveInto_runs fits rhs target
  have told := verdict_solveInto fits ran₁
  cases solved : first.result with
  | error error =>
      rw [← told, solved]
      rw [solveRefined, ran₁, Checked.ok_bind, solved] at ran
      cases ran
      rfl
  | ok _ =>
      rw [solved] at told
      have sizes := Factor.checkLengths_eq_ok told.symm
      simp only [solveDemands, List.forall_mem_cons] at sizes
      obtain ⟨_, _, _, _, _, _, ran', _⟩ :=
        solveRefined_follows fits sizes.1.symm sizes.2.1.symm
      cases ran.symm.trans ran'
      exact told

theorem verdict_residualNormSq (fits : session.Fits pattern signs)
    {reply : Reply α (Session α) α}
    (ran : session.residualNormSq rhs x = .ok reply) :
    verdict reply.result =
      checkLengths (residualDemands session.size rhs x) := by
  obtain ⟨measured, measures, made⟩ := Checked.bind_eq_ok_iff.mp ran
  cases made
  exact (Factor.verdict_residualNormSq measures).trans
    (checkLengths_append_of_ok (residualDemands session.size rhs x)
      (fits.workspace_met .residualWorkspace))

end Session

def Query.demands (size : Nat) : Query α → List (Quantity × Nat × Nat)
  | .solveInto rhs target | .solveRefined rhs target =>
      solveDemands size rhs target
  | .solve rhs => [(.solveRhs, size, rhs.size)]
  | .solvePair rhs₁ rhs₂ target₁ target₂ =>
      solveDemands size rhs₁ target₁ ++ solveDemands size rhs₂ target₂
  | .residualNormSq rhs x | .checkResidual rhs x => residualDemands size rhs x
  | .defectNormSq => []

def Call.demands (session : Session α) : Call α → List (Quantity × Nat × Nat)
  | .factorize values =>
      [(.factorizeValues, session.pattern.slotCount, values.size)]
  | .factorizeMatrix matrix => session.pattern.demands matrix
  | .query question => question.demands session.size

def Answer.verdict : Answer α → Except (Error α) Unit
  | .written reply | .pair reply => reply.result
  | .solution reply => QuasiDefinite.verdict reply.result
  | .refined reply => QuasiDefinite.verdict reply.result
  | .norm reply => QuasiDefinite.verdict reply.result

def Response.verdict : Response α → Except (Error α) Unit
  | .factored reply => QuasiDefinite.verdict reply.result
  | .answered answer => answer.verdict

namespace Session

variable [Scalar α] {session : Session α} {pattern : Pattern}
  {signs : Array Sign}

/-- A query is refused for its sizes, or because nothing is factored. -/
theorem verdict_answer (fits : session.Fits pattern signs) {query : Query α}
    {next : Session α} {answer : Answer α}
    (ran : session.answer query = .ok (next, answer))
    (asked : answer.verdict ≠ .error .notFactored) :
    answer.verdict = Factor.checkLengths (query.demands session.size) := by
  cases query with
  | solveInto rhs target =>
      obtain ⟨reply, solves, made⟩ := Checked.bind_eq_ok_iff.mp ran
      cases made
      exact (verdict_unit _).symm.trans (verdict_solveInto fits solves)
  | solve rhs =>
      obtain ⟨reply, solves, made⟩ := Checked.bind_eq_ok_iff.mp ran
      cases made
      exact verdict_solve fits solves
  | solvePair rhs₁ rhs₂ target₁ target₂ =>
      obtain ⟨reply, solves, made⟩ := Checked.bind_eq_ok_iff.mp ran
      cases made
      exact (verdict_unit _).symm.trans (verdict_solvePair fits solves)
  | solveRefined rhs target =>
      obtain ⟨reply, refines, made⟩ := Checked.bind_eq_ok_iff.mp ran
      cases made
      exact verdict_solveRefined fits refines
  | residualNormSq rhs x =>
      obtain ⟨reply, measures, made⟩ := Checked.bind_eq_ok_iff.mp ran
      cases made
      exact verdict_residualNormSq fits measures
  | defectNormSq =>
      obtain ⟨reply, measures, made⟩ := Checked.bind_eq_ok_iff.mp ran
      cases made
      obtain ⟨measured, _, made⟩ := Checked.bind_eq_ok_iff.mp measures
      cases made
      rfl
  | checkResidual rhs x =>
      obtain ⟨reply, measures, made⟩ := Checked.bind_eq_ok_iff.mp ran
      cases made
      rw [checkResidual] at measures
      split at measures
      · exact verdict_residualNormSq fits measures
      · cases measures
        exact absurd rfl asked

theorem refusesNone_start {pattern : Pattern} {signs : Array Sign}
    {settings : Settings α}
    {outcome : Except (Error α) (Session α × List (Event α))}
    (ran : start pattern signs settings = .ok outcome) :
    RefusesNone outcome := by
  unfold start at ran
  cases validated : settings.validate with
  | error flaw =>
      rw [validated] at ran
      cases ran
      exact refusesNone_configuration _
  | ok =>
      rw [validated] at ran
      obtain ⟨planned, plans, made⟩ := Checked.bind_eq_ok_iff.mp ran
      cases made
      refine RefusesNone.map ?_ _
      obtain ⟨found, _, plans⟩ := Checked.bind_eq_ok_iff.mp plans
      cases found with
      | error flaw =>
          cases plans
          exact refusesNone_configuration _
      | ok plan =>
          obtain ⟨event, _, plans⟩ := Checked.bind_eq_ok_iff.mp plans
          cases plans
          exact refusesNone_ok _

theorem refusesBy_factorize (fits : session.Fits pattern signs)
    {values : Array α} {reply : Reply α (Session α) (Summary α)}
    (ran : session.factorize values = .ok reply) :
    RefusesBy [(.factorizeValues, pattern.slotCount, values.size)]
      reply.result := by
  obtain ⟨inner, counters, factored, ran', _⟩ := factorize_runs fits values
  cases ran.symm.trans ran'
  have refuses := Factor.refusesBy_factorize factored
  rw [Plan.matrixCount, fits.regular.relabels.slotCount_eq] at refuses
  exact refuses

theorem factorizeMatrix_eq_dimension_iff (fits : session.Fits pattern signs)
    (same : session.pattern = pattern) {matrix : Sparse α}
    {reply : Reply α (Session α) (Summary α)}
    (ran : session.factorizeMatrix matrix = .ok reply)
    (quantity : Quantity) (expected actual : Nat) :
    reply.result = .error (.dimension quantity expected actual) ↔
      session.pattern.gather matrix =
        .error (.dimension quantity expected actual) := by
  rw [factorizeMatrix] at ran
  cases gathered : session.pattern.gather matrix with
  | error error =>
      rw [gathered] at ran
      cases ran
      rw [Reply.refuse, Except.error.injEq, Except.error.injEq]
  | ok values =>
      rw [gathered] at ran
      refine iff_of_false (fun refused => ?_)
        (refusesNone_ok values quantity expected actual)
      obtain ⟨member, differs⟩ := (refusesBy_factorize fits ran).dimension
        refused
      cases List.mem_singleton.mp member
      exact differs (same ▸ (Pattern.gather_size gathered).symm)

end Session

end QuasiDefinite
