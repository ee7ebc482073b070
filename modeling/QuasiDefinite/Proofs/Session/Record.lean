import QuasiDefinite.Proofs.Exact.Field
import QuasiDefinite.Proofs.Pattern.Collect
import QuasiDefinite.Proofs.Session.Calls

namespace QuasiDefinite

variable {α : Type}

/-- An attempt to factor: the values it offers to the arithmetic, or why there
are none, and what it is answered. -/
structure Attempt (α : Type) where
  offered : Except (Error α) (Array α)
  result : Except (Error α) (Summary α)

/-- The latest attempt that counts, because it offered values. -/
def latest? (log : List (Attempt α)) : Option (Attempt α) :=
  (log.filter fun attempt => attempt.offered.isOk).getLast?

theorem latest?_concat_ok {log : List (Attempt α)} {values : Array α}
    {result : Except (Error α) (Summary α)} :
    latest? (log ++ [⟨.ok values, result⟩]) = some ⟨.ok values, result⟩ := by
  simp [latest?, Except.isOk, Except.toBool]

theorem latest?_concat_error {log : List (Attempt α)} {error : Error α}
    {result : Except (Error α) (Summary α)} :
    latest? (log ++ [⟨.error error, result⟩]) = latest? log := by
  simp [latest?, Except.isOk, Except.toBool]

/-- The systems that a query is to solve: right hand sides with the arrays that
take the solutions. -/
def Query.systems [Zero α] (size : Nat) : Query α → List (Array α × Array α)
  | .solveInto rhs target => [(rhs, target)]
  | .solve rhs => [(rhs, .replicate size 0)]
  | .solvePair rhs₁ rhs₂ target₁ target₂ => [(rhs₁, target₁), (rhs₂, target₂)]
  | .solveRefined rhs target => [(rhs, target)]
  | .residualNormSq .. | .defectNormSq | .checkResidual .. => []

/-- The number of systems solved before the first that does not fit. -/
def solvedOf (size : Nat) (systems : List (Array α × Array α)) : Nat :=
  (systems.takeWhile fun (rhs, target) =>
    rhs.size == size && target.size == size).length

def Call.solves [Zero α] (size : Nat) : Call α → Nat
  | .query question => solvedOf size (question.systems size)
  | .factorize _ | .factorizeMatrix _ => 0

/-- The totals over calls and over the log of their attempts. -/
def Counters.totals [Zero α] (size : Nat) (calls : List (Call α))
    (log : List (Attempt α)) : Counters :=
  let summaries := log.filterMap fun attempt => attempt.result.toOption
  { factorizations := summaries.length
    solves := total (calls.map (Call.solves size))
    lifted := total (summaries.map Summary.lifted)
    warnings := summaries.countP fun summary => summary.warning.isSome }

variable [Scalar α]

/-- What a call offers to the arithmetic; a query factors nothing. -/
def Call.offer? (pattern : Pattern) :
    Call α → Option (Except (Error α) (Array α))
  | .factorize values => some <|
      if values.size = pattern.slotCount then .ok values
      else .error (.dimension .factorizeValues pattern.slotCount values.size)
  | .factorizeMatrix matrix => some (pattern.gather matrix)
  | .query _ => none

namespace Session

def resultOf? (session : Session α) :
    Call α → Checked (Option (Except (Error α) (Summary α)))
  | .factorize values => do return some (← session.factorize values).result
  | .factorizeMatrix matrix => do
      return some (← session.factorizeMatrix matrix).result
  | .query _ => return none

def afterLogged (state : Session α × List (Attempt α)) (call : Call α) :
    Checked (Session α × List (Attempt α)) := do
  let (session, log) := state
  let result? ← session.resultOf? call
  let attempt? := Option.map₂ Attempt.mk (call.offer? session.pattern) result?
  return (← session.afterCall call, log ++ attempt?.toList)

/-- The session after calls, one after the other, and the log of their
attempts. -/
def record (session : Session α) (calls : List (Call α)) :
    Checked (Session α × List (Attempt α)) :=
  calls.foldlM afterLogged (session, [])

/-- The status of a session is that of its latest attempt. -/
structure Reports (session : Session α) (latest : Option (Attempt α)) :
    Prop where
  ended : ∀ attempt, latest = some attempt →
    (∃ summary, attempt.result = .ok summary) ∨
      ∃ slot, attempt.result = .error (.nonFinite slot)
  silent : session.lastSummary = none ↔
    ∀ attempt, latest = some attempt →
      ∃ slot, attempt.result = .error (.nonFinite slot)
  refused : ∀ rhs x, (∃ reply, session.checkResidual rhs x = .ok reply ∧
    reply.result = .error .notFactored) ↔ session.lastSummary = none
  told : ∀ values summary, latest = some ⟨.ok values, .ok summary⟩ →
    session.lastSummary = some summary ∧ ∀ rhs x,
      rhs.size = session.size → x.size = session.size → ∃ value reply,
        session.plan.residualNormSq values rhs x = .ok value ∧
        session.checkResidual rhs x = .ok reply ∧ reply.result = .ok value

/-- What a call leaves alone, by what it offers and is answered. -/
structure Treats (session next : Session α)
    (offer? : Option (Except (Error α) (Array α)))
    (result? : Option (Except (Error α) (Summary α))) : Prop where
  queried : offer? = none → result? = none ∧ next.factor = session.factor
  refused : ∀ error, offer? = some (.error error) →
    result? = some (.error error) ∧ next = session
  rejected : ∀ values error, offer? = some (.ok values) →
    result? = some (.error error) →
      (∃ slot, error = .nonFinite slot) ∧
      next = { session with factor := { session.factor with ready := false } }

variable {session : Session α} {pattern : Pattern} {signs : Array Sign}

theorem solveInto_counts (fits : session.Fits pattern signs)
    (rhs target : Array α) :
    ∃ reply, session.solveInto rhs target = .ok reply ∧
      session.Answers reply.state.1 pattern signs ∧
      reply.state.1.counters = { session.counters with
        solves := session.counters.solves +
          solvedOf session.size [(rhs, target)] } ∧
      (reply.result = .ok () ↔
        rhs.size = session.size ∧ target.size = session.size) := by
  by_cases sizes : rhs.size = session.size ∧ target.size = session.size
  · obtain ⟨work, new, _, _, ran, work_size, _⟩ :=
      Factor.solve_runs fits.regular fits.factor fits.space sizes.1 sizes.2
    rw [solveInto, ran]
    refine ⟨_, rfl, fits.answers ⟨work_size, fits.space.residual_size,
      fits.space.solution_size⟩, ?_, iff_of_true rfl sizes⟩
    simp [solvedOf, sizes, Reply.mapState, Reply.answer]
  · obtain ⟨error, refused⟩ := @Factor.solve_refuses _ _ session.plan
      session.factor session.space rhs target sizes
    rw [solveInto, refused]
    refine ⟨_, rfl, fits.answers fits.space, ?_,
      iff_of_false (by simp [Reply.mapState, Reply.refuse]) sizes⟩
    have none : (rhs.size == session.size && target.size == session.size) =
        false := by simpa using sizes
    simp [solvedOf, none, Reply.mapState, Reply.refuse]

theorem residualNormSq_counts {rhs x : Array α}
    {reply : Reply α (Session α) α}
    (ran : session.residualNormSq rhs x = .ok reply) :
    reply.state.counters = session.counters := by
  rw [residualNormSq, Checked.bind_eq_ok_iff] at ran
  obtain ⟨inner, _, made⟩ := ran
  cases made
  rfl

theorem checkResidual_counts {rhs x : Array α}
    {reply : Reply α (Session α) α}
    (ran : session.checkResidual rhs x = .ok reply) :
    reply.state.counters = session.counters := by
  rw [checkResidual] at ran
  split at ran
  · exact residualNormSq_counts ran
  · cases ran
    rfl

theorem defectNormSq_counts {reply : Reply α (Session α) α}
    (ran : session.defectNormSq = .ok reply) :
    reply.state.counters = session.counters := by
  rw [defectNormSq, Checked.bind_eq_ok_iff] at ran
  obtain ⟨⟨value, space⟩, _, made⟩ := ran
  cases made
  rfl

theorem solvePair_counts (fits : session.Fits pattern signs)
    {rhs₁ rhs₂ target₁ target₂ : Array α}
    {reply : Reply α (Session α × Array α × Array α) Unit}
    (ran : session.solvePair rhs₁ rhs₂ target₁ target₂ = .ok reply) :
    reply.state.1.counters = { session.counters with
      solves := session.counters.solves +
        solvedOf session.size [(rhs₁, target₁), (rhs₂, target₂)] } := by
  obtain ⟨first, ran', answers, counted, accepted⟩ :=
    solveInto_counts fits rhs₁ target₁
  rw [solvePair, ran', Checked.ok_bind] at ran
  dsimp only at ran
  cases solved : first.result with
  | error error =>
      have misfit : ¬(rhs₁.size = session.size ∧
          target₁.size = session.size) := by
        simp [← accepted, solved]
      have none : (rhs₁.size == session.size &&
          target₁.size == session.size) = false := by simpa using misfit
      rw [solved] at ran
      cases ran
      refine counted.trans ?_
      simp [solvedOf, none]
  | ok =>
      have fit := accepted.mp solved
      have size : first.state.1.size = session.size :=
        congrArg Plan.size answers.keeps.plan
      obtain ⟨second, ran', _, counted', _⟩ :=
        solveInto_counts answers.fits rhs₂ target₂
      rw [solved] at ran
      dsimp only at ran
      rw [ran'] at ran
      cases ran
      refine counted'.trans ?_
      rw [counted, size]
      simp [solvedOf, fit]
      omega

theorem solveRefined_counts (fits : session.Fits pattern signs)
    {rhs target : Array α}
    {reply : Reply α (Session α × Array α) (Refinement α)}
    (ran : session.solveRefined rhs target = .ok reply) :
    reply.state.1.counters = { session.counters with
      solves := session.counters.solves +
        solvedOf session.size [(rhs, target)] } := by
  obtain ⟨solution, ran', _, counted, _⟩ := solveInto_counts fits rhs target
  rw [solveRefined, ran', Checked.ok_bind] at ran
  dsimp only at ran
  cases solved : solution.result with
  | error error =>
      rw [solved] at ran
      cases ran
      exact counted
  | ok =>
      rw [solved] at ran
      obtain ⟨refined, _, made⟩ := Checked.bind_eq_ok_iff.mp ran
      cases made
      exact counted

theorem afterQuery_counts (fits : session.Fits pattern signs)
    {query : Query α} {next : Session α}
    (ran : session.afterQuery query = .ok next) :
    next.counters = { session.counters with
      solves := session.counters.solves +
        solvedOf session.size (query.systems session.size) } := by
  cases query with
  | solveInto rhs target =>
      obtain ⟨reply, ran', _, counted, _⟩ := solveInto_counts fits rhs target
      rw [afterQuery, ran'] at ran
      cases ran
      exact counted
  | solve rhs =>
      obtain ⟨reply, ran', _, counted, _⟩ :=
        solveInto_counts fits rhs (.replicate session.size 0)
      rw [afterQuery, solve, ran'] at ran
      cases ran
      exact counted
  | solvePair rhs₁ rhs₂ target₁ target₂ =>
      obtain ⟨reply, answered, made⟩ := Checked.bind_eq_ok_iff.mp ran
      cases made
      exact solvePair_counts fits answered
  | solveRefined rhs target =>
      obtain ⟨reply, answered, made⟩ := Checked.bind_eq_ok_iff.mp ran
      cases made
      exact solveRefined_counts fits answered
  | residualNormSq rhs x =>
      obtain ⟨reply, answered, made⟩ := Checked.bind_eq_ok_iff.mp ran
      cases made
      exact residualNormSq_counts answered
  | defectNormSq =>
      obtain ⟨reply, answered, made⟩ := Checked.bind_eq_ok_iff.mp ran
      cases made
      exact defectNormSq_counts answered
  | checkResidual rhs x =>
      obtain ⟨reply, answered, made⟩ := Checked.bind_eq_ok_iff.mp ran
      cases made
      exact checkResidual_counts answered

/-- What an attempt that counts does to the factor is told by its result. -/
inductive Remembers (factor : Factor α) (plan : Plan) (settings : Settings α) :
    Option (Attempt α) → Prop
  | nothing (unready : factor.ready = false) : Remembers factor plan settings
      none
  | rejected (values : Array α) (slot : Nat) (unready : factor.ready = false) :
      Remembers factor plan settings
        (some ⟨.ok values, .error (.nonFinite slot)⟩)
  | accepted (values : Array α) (numbers : Numbers α)
      (values_size : values.size = plan.matrixCount)
      (holds : factor.Holds plan settings values numbers) :
      Remembers factor plan settings (some ⟨.ok values, .ok factor.summary⟩)

theorem factorize_remembers {plan : Plan} {settings : Settings α}
    {factor : Factor α} {values : Array α}
    {reply : Reply α (Factor α) (Summary α)}
    (regular : plan.Regular pattern signs) (fits : factor.Fits plan)
    (values_size : values.size = plan.matrixCount)
    (ran : factor.factorize plan settings values = .ok reply) :
    Remembers reply.state plan settings
      (some ⟨.ok values, reply.result⟩) := by
  cases answered : reply.result with
  | error error =>
      obtain ⟨slot, rfl, state⟩ :=
        Factor.refused_of_factorize values_size ran answered
      exact .rejected values slot (by rw [state])
  | ok summary =>
      obtain ⟨rfl, numbers, holds⟩ :=
        Factor.holds_of_factorize regular fits ran answered
      exact .accepted values numbers values_size holds

def countResult (counters : Counters) :
    Except (Error α) (Summary α) → Counters
  | .ok summary => countFactorization counters summary
  | .error _ => counters

def afterReply (session : Session α)
    (reply : Reply α (Factor α) (Summary α)) : Session α :=
  { session with
    factor := reply.state
    counters := countResult session.counters reply.result }

theorem factorize_eq {values : Array α}
    {reply : Reply α (Factor α) (Summary α)}
    (ran : session.factor.factorize session.plan session.settings values =
      .ok reply) :
    session.factorize values =
      .ok ⟨reply.result, session.afterReply reply, reply.events⟩ := by
  rw [factorize, ran]
  cases answered : reply.result <;>
    simp [answered, Reply.mapState, afterReply, countResult]

theorem offered_runs (fits : session.Fits pattern signs)
    (same : session.pattern = pattern) {call : Call α} {values : Array α}
    (offered : call.offer? session.pattern = some (.ok values)) :
    ∃ reply, values.size = session.plan.matrixCount ∧
      session.factor.factorize session.plan session.settings values =
        .ok reply ∧
      session.resultOf? call = .ok (some reply.result) ∧
      session.afterCall call = .ok (session.afterReply reply) ∧
      reply.state.Fits session.plan := by
  have count : session.plan.matrixCount = session.pattern.slotCount :=
    fits.regular.relabels.slotCount_eq.trans (by rw [same])
  obtain ⟨reply, ran, fits'⟩ := Factor.Fits.factorize_runs fits.regular
    fits.factor session.settings values
  have factored := factorize_eq ran
  cases call with
  | factorize given =>
      simp only [Call.offer?, Option.some.injEq] at offered
      split at offered
      · next values_size =>
        cases offered
        refine ⟨reply, values_size.trans count.symm, ran, ?_, ?_, fits'⟩
        · rw [resultOf?, factored]
          rfl
        · rw [afterCall, factored]
          rfl
      · cases offered
  | factorizeMatrix matrix =>
      have gathered := Option.some.inj offered
      refine ⟨reply, (Pattern.gather_size gathered).trans count.symm, ran, ?_,
        ?_, fits'⟩
      · rw [resultOf?, factorizeMatrix, gathered]
        dsimp only
        rw [factored]
        rfl
      · rw [afterCall, factorizeMatrix, gathered]
        dsimp only
        rw [factored]
        rfl
  | query question => cases offered

theorem refused_runs (fits : session.Fits pattern signs)
    (same : session.pattern = pattern) {call : Call α} {error : Error α}
    (refused : call.offer? session.pattern = some (.error error)) :
    session.resultOf? call = .ok (some (.error error)) ∧
      session.afterCall call = .ok session := by
  have count : session.plan.matrixCount = session.pattern.slotCount :=
    fits.regular.relabels.slotCount_eq.trans (by rw [same])
  cases call with
  | factorize values =>
      simp only [Call.offer?, Option.some.injEq] at refused
      split at refused
      · cases refused
      · next misfit =>
        cases refused
        have ran : session.factor.factorize session.plan session.settings
            values = .ok (.refuse session.factor (.dimension .factorizeValues
              session.pattern.slotCount values.size)) := by
          rw [Factor.factorize_of_misfit (count ▸ Ne.symm misfit), count]
        have factored := factorize_eq ran
        constructor
        · rw [resultOf?, factored]
          rfl
        · rw [afterCall, factored]
          rfl
  | factorizeMatrix matrix =>
      have gathered := Option.some.inj refused
      constructor
      · rw [resultOf?, factorizeMatrix, gathered]
        rfl
      · rw [afterCall, factorizeMatrix, gathered]
        rfl
  | query question => cases refused

structure Logged (session : Session α) (pattern : Pattern)
    (signs : Array Sign) (calls : List (Call α)) (log : List (Attempt α)) :
    Prop where
  fits : session.Fits pattern signs
  pattern_eq : session.pattern = pattern
  counters : session.counters = .totals session.size calls log
  remembers : Remembers session.factor session.plan session.settings
    (latest? log)

theorem totals_concat_attempt {size : Nat} {calls : List (Call α)}
    {log : List (Attempt α)} {call : Call α} {attempt : Attempt α}
    (factors : call.solves size = 0) :
    Counters.totals size (calls ++ [call]) (log ++ [attempt]) =
      countResult (.totals size calls log) attempt.result := by
  obtain ⟨offered, result⟩ := attempt
  cases result with
  | error error =>
      simp [Counters.totals, total_append, total, factors, Except.toOption,
        countResult]
  | ok summary =>
      simp [Counters.totals, total_append, total, factors, Except.toOption,
        countResult, countFactorization, List.countP_singleton]

theorem totals_concat_query {size : Nat} {calls : List (Call α)}
    {log : List (Attempt α)} {question : Query α} :
    Counters.totals size (calls ++ [.query question]) log =
      { Counters.totals size calls log with
        solves := (Counters.totals size calls log).solves +
          solvedOf size (question.systems size) } := by
  simp [Counters.totals, total_append, total, Call.solves]

variable {calls : List (Call α)} {log : List (Attempt α)}

theorem Logged.next (logged : session.Logged pattern signs calls log)
    (call : Call α) :
    ∃ next log', afterLogged (session, log) call = .ok (next, log') ∧
      next.Logged pattern signs (calls ++ [call]) log' := by
  obtain ⟨fits, same, counters, remembers⟩ := logged
  cases offer : call.offer? session.pattern with
  | none =>
      cases call with
      | factorize values => cases offer
      | factorizeMatrix matrix => cases offer
      | query question =>
          obtain ⟨next, ran, answers⟩ := afterQuery_runs fits question
          have counted := afterQuery_counts fits ran
          have size : next.size = session.size :=
            congrArg Plan.size answers.keeps.plan
          refine ⟨next, log, ?_, answers.fits,
            answers.keeps.pattern.trans same, ?_, ?_⟩
          · rw [afterLogged]
            dsimp only
            rw [resultOf?, Checked.pure_eq_ok, Checked.ok_bind, afterCall, ran]
            simp
          · rw [counted, totals_concat_query, size, counters]
          · rw [answers.factor, answers.keeps.plan, answers.keeps.settings]
            exact remembers
  | some offered =>
      have factors : call.solves session.size = 0 := by
        cases call with
        | query question => cases offer
        | factorize | factorizeMatrix => rfl
      cases offered with
      | error error =>
          obtain ⟨result, ran⟩ := refused_runs fits same offer
          refine ⟨session, log ++ [⟨.error error, .error error⟩], ?_, fits,
            same, ?_, ?_⟩
          · rw [afterLogged]
            dsimp only
            rw [result, Checked.ok_bind, ran, offer]
            rfl
          · rw [totals_concat_attempt factors, ← counters]
            rfl
          · rwa [latest?_concat_error]
      | ok values =>
          obtain ⟨reply, values_size, factored, result, ran, fits'⟩ :=
            offered_runs fits same offer
          refine ⟨session.afterReply reply,
            log ++ [⟨.ok values, reply.result⟩], ?_,
            ⟨fits.regular, fits', fits.space⟩, same, ?_, ?_⟩
          · rw [afterLogged]
            dsimp only
            rw [result, Checked.ok_bind, ran, offer]
            rfl
          · refine Eq.trans ?_ (totals_concat_attempt factors).symm
            rw [← counters]
            rfl
          · rw [latest?_concat_ok]
            exact factorize_remembers fits.regular fits.factor values_size
              factored

theorem record_logged (initial : session.Logged pattern signs [] [])
    (calls : List (Call α)) :
    ∃ final log, session.record calls = .ok (final, log) ∧
      final.Logged pattern signs calls log := by
  obtain ⟨⟨final, log⟩, ran, logged⟩ :=
    @Checked.foldlM_runs _ _ _ afterLogged calls
      (fun done (state : Session α × List (Attempt α)) =>
        state.1.Logged pattern signs done state.2)
      (session, []) initial (by
        rintro done call rest ⟨state, log⟩ _ logged
        obtain ⟨next, log', ran, logged⟩ := logged.next call
        exact ⟨_, ran, logged⟩)
  exact ⟨final, log, ran, logged⟩

theorem run_of_record {final : Session α}
    (ran : session.record calls = .ok (final, log)) :
    session.run calls = .ok final := by
  suffices general : ∀ start : List (Attempt α),
      calls.foldlM afterLogged (session, start) = .ok (final, log) →
        calls.foldlM afterCall session = .ok final from general [] ran
  clear ran
  induction calls generalizing session with
  | nil =>
      intro start ran
      cases ran
      rfl
  | cons call rest ih =>
      intro start ran
      simp only [List.foldlM_cons, afterLogged, Checked.bind_eq_ok_iff,
        Checked.pure_eq_ok] at ran
      obtain ⟨_, ⟨_, _, next, first, made⟩, ran⟩ := ran
      cases made
      rw [List.foldlM_cons, first, Checked.ok_bind]
      exact ih _ ran

theorem checkResidual_notFactored_iff (rhs x : Array α) :
    (∃ reply, session.checkResidual rhs x = .ok reply ∧
      reply.result = .error .notFactored) ↔ session.lastSummary = none := by
  rw [checkResidual, lastSummary]
  cases ready : session.factor.ready with
  | false => exact iff_of_true ⟨_, rfl, rfl⟩ rfl
  | true =>
      rw [if_pos rfl, if_pos rfl]
      refine iff_of_false ?_ nofun
      rintro ⟨reply, ran, refused⟩
      rw [residualNormSq, Checked.bind_eq_ok_iff] at ran
      obtain ⟨inner, measured, made⟩ := ran
      cases made
      rw [Factor.residualNormSq] at measured
      split at measured
      · next error checked =>
        cases measured
        obtain ⟨_, _, _, _, _, rfl⟩ :=
          Factor.dimension_of_checkLengths checked
        cases refused
      · simp only [Checked.bind_eq_ok_iff] at measured
        obtain ⟨_, _, _, _, made⟩ := measured
        cases made
        cases refused

theorem Logged.reports (logged : session.Logged pattern signs calls log) :
    session.Reports (latest? log) := by
  obtain ⟨fits, _, _, remembers⟩ := logged
  generalize latest? log = latest at remembers
  refine ⟨?_, ?_, checkResidual_notFactored_iff, ?_⟩
  · intro attempt found
    cases remembers with
    | nothing => cases found
    | rejected values slot =>
        cases found
        exact .inr ⟨slot, rfl⟩
    | accepted =>
        cases found
        exact .inl ⟨_, rfl⟩
  · rw [lastSummary]
    cases remembers with
    | nothing unready => simp [unready]
    | rejected values slot unready => simp [unready]
    | accepted values numbers values_size holds => simp [holds.ready]
  · intro values summary found
    cases remembers with
    | nothing => cases found
    | rejected => cases found
    | accepted values numbers values_size holds =>
        cases found
        refine ⟨by rw [lastSummary, if_pos holds.ready], ?_⟩
        intro rhs x rhs_size x_size
        obtain ⟨value, new, against, ran, _⟩ :=
          Factor.residualNormSq_runs fits.regular values_size holds fits.space
            rhs_size x_size
        refine ⟨value, .answer { session with space := new } value, against,
          ?_, rfl⟩
        rw [checkResidual, if_pos holds.ready, residualNormSq, ran]
        rfl

theorem treats_runs (fits : session.Fits pattern signs)
    (same : session.pattern = pattern) (call : Call α) :
    ∃ next result?, session.afterCall call = .ok next ∧
      session.resultOf? call = .ok result? ∧
      session.Treats next (call.offer? pattern) result? := by
  rw [← same]
  cases offer : call.offer? session.pattern with
  | none =>
      cases call with
      | factorize values => cases offer
      | factorizeMatrix matrix => cases offer
      | query question =>
          obtain ⟨next, ran, answers⟩ := afterQuery_runs fits question
          exact ⟨next, none, ran, rfl, fun _ => ⟨rfl, answers.factor⟩, nofun,
            nofun⟩
  | some offered =>
      cases offered with
      | error error =>
          obtain ⟨result, ran⟩ := refused_runs fits same offer
          refine ⟨session, _, ran, result, nofun, ?_, nofun⟩
          intro error' given
          cases given
          exact ⟨rfl, rfl⟩
      | ok values =>
          obtain ⟨reply, values_size, factored, result, ran, _⟩ :=
            offered_runs fits same offer
          refine ⟨_, _, ran, result, nofun, nofun, ?_⟩
          intro values' error _ refused
          rw [Option.some.injEq] at refused
          obtain ⟨slot, rfl, state⟩ :=
            Factor.refused_of_factorize values_size factored refused
          refine ⟨⟨slot, rfl⟩, ?_⟩
          rw [afterReply, state, refused]
          rfl

/-- After any calls the status of a session is that of the latest attempt that
offered values, its counters are the totals over the calls, and the next call
leaves alone what it should. -/
theorem record_runs (constructed : pattern.Constructed) {settings : Settings α}
    {events : List (Event α)}
    (started : start pattern signs settings = .ok (.ok (session, events)))
    (calls : List (Call α)) :
    ∃ final log, session.record calls = .ok (final, log) ∧
      session.run calls = .ok final ∧
      final.Reports (latest? log) ∧
      final.counters = .totals pattern.size calls log ∧
      ∀ call, ∃ next result?, final.afterCall call = .ok next ∧
        final.resultOf? call = .ok result? ∧
        final.Treats next (call.offer? pattern) result? := by
  obtain ⟨_, _, _, _, _, fits⟩ := start_fits constructed started
  obtain ⟨_, plan, _, rfl, _⟩ := start_eq_ok started
  obtain ⟨final, log, ran, logged⟩ :=
    record_logged ⟨fits, rfl, rfl, .nothing rfl⟩ calls
  have size : final.size = pattern.size := logged.fits.regular.size_eq
  exact ⟨final, log, ran, run_of_record ran, logged.reports,
    size ▸ logged.counters,
    treats_runs logged.fits logged.pattern_eq⟩

/-- An arrow is offered too few values, then enough of them, and is solved for
two right hand sides, of which the second does not fit. -/
theorem record_runs_arrow :
    ∃ (session : Session ℚ) (events : List (Event ℚ)),
      start ⟨4, ⟨#[0, 1, 3, 5, 7], #[0, 0, 1, 0, 2, 0, 3]⟩⟩
        #[.positive, .negative, .positive, .negative]
        ⟨.supplied #[2, 0, 3, 1], 1 / 10, 1 / 1000, 1 / 100, 1, true, 0, 3⟩ =
          .ok (.ok (session, events)) ∧
      ∃ final log, session.record [.factorize #[2, 1],
          .factorize #[2, 1, -3, 1, 2, 1, -3],
          .query (.solvePair #[1, 2, 3, 4] #[1] #[0, 0, 0, 0] #[0])] =
            .ok (final, log) ∧
        final.Reports (latest? log) ∧ final.counters.solves = 1 ∧
        final.counters.factorizations =
          (log.filterMap fun attempt => attempt.result.toOption).length := by
  have constructed : Pattern.Constructed
      ⟨4, ⟨#[0, 1, 3, 5, 7], #[0, 0, 1, 0, 2, 0, 3]⟩⟩ :=
    .upper (by cbv : Pattern.ofUpperEntries 4 [(0, 1), (0, 2), (0, 3)] = _)
  obtain ⟨session, events, started⟩ := @start_runs ℚ _ _
    #[.positive, .negative, .positive, .negative]
    ⟨.supplied #[2, 0, 3, 1], 1 / 10, 1 / 1000, 1 / 100, 1, true, 0, 3⟩
    constructed rfl (by decide) (by decide +kernel)
  obtain ⟨final, log, ran, _, reports, counters, _⟩ :=
    record_runs constructed started [.factorize #[2, 1],
      .factorize #[2, 1, -3, 1, 2, 1, -3],
      .query (.solvePair #[1, 2, 3, 4] #[1] #[0, 0, 0, 0] #[0])]
  exact ⟨session, events, started, final, log, ran, reports,
    by rw [counters]; rfl, by rw [counters]; rfl⟩

end Session

end QuasiDefinite
