import QuasiDefinite.Proofs.Elimination.FillIn
import QuasiDefinite.Proofs.Factor.History
import QuasiDefinite.Proofs.Factor.Refine
import QuasiDefinite.Session.Basic

namespace QuasiDefinite

variable {α : Type}

inductive Query (α : Type) where
  | solveInto (rhs target : Array α)
  | solve (rhs : Array α)
  | solvePair (rhs₁ rhs₂ target₁ target₂ : Array α)
  | solveRefined (rhs target : Array α)
  | residualNormSq (rhs x : Array α)
  | defectNormSq
  | checkResidual (rhs x : Array α)

inductive Call (α : Type) where
  | factorize (values : Array α)
  | factorizeMatrix (matrix : Sparse α)
  | query (query : Query α)

namespace Session

structure Keeps (before after : Session α) : Prop where
  pattern : after.pattern = before.pattern
  settings : after.settings = before.settings
  plan : after.plan = before.plan

theorem Keeps.refl (session : Session α) : session.Keeps session :=
  ⟨rfl, rfl, rfl⟩

theorem Keeps.trans {first second third : Session α}
    (keeps : first.Keeps second) (keeps' : second.Keeps third) :
    first.Keeps third :=
  ⟨keeps'.pattern.trans keeps.pattern, keeps'.settings.trans keeps.settings,
    keeps'.plan.trans keeps.plan⟩

variable [Scalar α]

def afterQuery (session : Session α) : Query α → Checked (Session α)
  | .solveInto rhs target => do
      return (← session.solveInto rhs target).state.1
  | .solve rhs => do return (← session.solve rhs).state
  | .solvePair rhs₁ rhs₂ target₁ target₂ => do
      return (← session.solvePair rhs₁ rhs₂ target₁ target₂).state.1
  | .solveRefined rhs target => do
      return (← session.solveRefined rhs target).state.1
  | .residualNormSq rhs x => do
      return (← session.residualNormSq rhs x).state
  | .defectNormSq => do return (← session.defectNormSq).state
  | .checkResidual rhs x => do return (← session.checkResidual rhs x).state

def afterCall (session : Session α) : Call α → Checked (Session α)
  | .factorize values => do return (← session.factorize values).state
  | .factorizeMatrix matrix => do
      return (← session.factorizeMatrix matrix).state
  | .query query => session.afterQuery query

def ask (session : Session α) (queries : List (Query α)) :
    Checked (Session α) :=
  queries.foldlM afterQuery session

def run (session : Session α) (calls : List (Call α)) :
    Checked (Session α) :=
  calls.foldlM afterCall session

structure Fits (session : Session α) (pattern : Pattern)
    (signs : Array Sign) : Prop where
  regular : session.plan.Regular pattern signs
  factor : session.factor.Fits session.plan
  space : session.space.Fits session.plan.size

/-- An answer leaves everything but the workspace and the counters alone. -/
structure Answers (before after : Session α) (pattern : Pattern)
    (signs : Array Sign) : Prop where
  fits : after.Fits pattern signs
  keeps : before.Keeps after
  factor : after.factor = before.factor

theorem Answers.trans {first second third : Session α} {pattern : Pattern}
    {signs : Array Sign} (answers : first.Answers second pattern signs)
    (answers' : second.Answers third pattern signs) :
    first.Answers third pattern signs :=
  ⟨answers'.fits, answers.keeps.trans answers'.keeps,
    answers'.factor.trans answers.factor⟩

variable {session : Session α} {pattern : Pattern} {signs : Array Sign}

theorem Fits.answers (fits : session.Fits pattern signs)
    {space : Workspace α} {counters : Counters}
    (fitsSpace : space.Fits session.plan.size) :
    session.Answers { session with space, counters } pattern signs :=
  ⟨⟨fits.regular, fits.factor, fitsSpace⟩, ⟨rfl, rfl, rfl⟩, rfl⟩

theorem solveInto_runs (fits : session.Fits pattern signs)
    (rhs target : Array α) :
    ∃ reply, session.solveInto rhs target = .ok reply ∧
      session.Answers reply.state.1 pattern signs := by
  obtain ⟨reply, ran, fitsSpace, _⟩ :=
    Factor.solve_total fits.regular fits.factor fits.space rhs target
  rw [solveInto, ran]
  exact ⟨_, rfl, fits.answers fitsSpace⟩

theorem solve_runs (fits : session.Fits pattern signs) (rhs : Array α) :
    ∃ reply, session.solve rhs = .ok reply ∧
      session.Answers reply.state pattern signs := by
  obtain ⟨reply, ran, answers⟩ :=
    solveInto_runs fits rhs (.replicate session.size 0)
  rw [solve, ran]
  exact ⟨_, rfl, answers⟩

theorem solvePair_runs (fits : session.Fits pattern signs)
    (rhs₁ rhs₂ target₁ target₂ : Array α) :
    ∃ reply, session.solvePair rhs₁ rhs₂ target₁ target₂ = .ok reply ∧
      session.Answers reply.state.1 pattern signs := by
  obtain ⟨reply, ran, answers⟩ := solveInto_runs fits rhs₁ target₁
  rw [solvePair, ran, Checked.ok_bind]
  dsimp only
  split
  · exact ⟨_, rfl, answers⟩
  · obtain ⟨reply', ran', answers'⟩ := solveInto_runs answers.fits rhs₂ target₂
    rw [ran']
    exact ⟨_, rfl, answers.trans answers'⟩

theorem solveRefined_runs (fits : session.Fits pattern signs)
    (rhs target : Array α) :
    ∃ reply, session.solveRefined rhs target = .ok reply ∧
      session.Answers reply.state.1 pattern signs := by
  obtain ⟨reply, ran, answers⟩ := solveInto_runs fits rhs target
  rw [solveRefined, ran, Checked.ok_bind]
  dsimp only
  split
  · exact ⟨_, rfl, answers⟩
  · have fits := answers.fits
    obtain ⟨reply', ran', fitsSpace, _⟩ :=
      Factor.refine_total fits.regular fits.factor fits.space rhs reply.state.2
        reply.state.1.settings.refineTolerance
        reply.state.1.settings.refineLimit
    rw [ran']
    exact ⟨_, rfl, answers.trans (fits.answers fitsSpace)⟩

theorem residualNormSq_runs (fits : session.Fits pattern signs)
    (rhs x : Array α) :
    ∃ reply, session.residualNormSq rhs x = .ok reply ∧
      session.Answers reply.state pattern signs := by
  obtain ⟨reply, ran, fitsSpace⟩ :=
    Factor.residualNormSq_total fits.regular fits.factor fits.space rhs x
  rw [residualNormSq, ran]
  exact ⟨_, rfl, fits.answers fitsSpace⟩

theorem defectNormSq_runs (fits : session.Fits pattern signs) :
    ∃ reply, session.defectNormSq = .ok reply ∧
      session.Answers reply.state pattern signs := by
  obtain ⟨value, space, ran, fitsSpace⟩ :=
    Factor.defectNormSq_total fits.regular fits.factor fits.space
  rw [defectNormSq, ran]
  exact ⟨_, rfl, fits.answers fitsSpace⟩

theorem checkResidual_runs (fits : session.Fits pattern signs)
    (rhs x : Array α) :
    ∃ reply, session.checkResidual rhs x = .ok reply ∧
      session.Answers reply.state pattern signs := by
  unfold checkResidual
  split
  · exact residualNormSq_runs fits rhs x
  · exact ⟨_, rfl, fits.answers fits.space⟩

theorem afterQuery_runs (fits : session.Fits pattern signs) (query : Query α) :
    ∃ next, session.afterQuery query = .ok next ∧
      session.Answers next pattern signs := by
  cases query with
  | solveInto rhs target =>
      obtain ⟨reply, ran, answers⟩ := solveInto_runs fits rhs target
      rw [afterQuery, ran]
      exact ⟨_, rfl, answers⟩
  | solve rhs =>
      obtain ⟨reply, ran, answers⟩ := solve_runs fits rhs
      rw [afterQuery, ran]
      exact ⟨_, rfl, answers⟩
  | solvePair rhs₁ rhs₂ target₁ target₂ =>
      obtain ⟨reply, ran, answers⟩ :=
        solvePair_runs fits rhs₁ rhs₂ target₁ target₂
      rw [afterQuery, ran]
      exact ⟨_, rfl, answers⟩
  | solveRefined rhs target =>
      obtain ⟨reply, ran, answers⟩ := solveRefined_runs fits rhs target
      rw [afterQuery, ran]
      exact ⟨_, rfl, answers⟩
  | residualNormSq rhs x =>
      obtain ⟨reply, ran, answers⟩ := residualNormSq_runs fits rhs x
      rw [afterQuery, ran]
      exact ⟨_, rfl, answers⟩
  | defectNormSq =>
      obtain ⟨reply, ran, answers⟩ := defectNormSq_runs fits
      rw [afterQuery, ran]
      exact ⟨_, rfl, answers⟩
  | checkResidual rhs x =>
      obtain ⟨reply, ran, answers⟩ := checkResidual_runs fits rhs x
      rw [afterQuery, ran]
      exact ⟨_, rfl, answers⟩

theorem ask_runs (fits : session.Fits pattern signs)
    (queries : List (Query α)) :
    ∃ next, session.ask queries = .ok next ∧
      session.Answers next pattern signs := by
  apply Checked.foldlM_keeps fun next => session.Answers next pattern signs
  · exact ⟨fits, .refl session, rfl⟩
  · intro state query _ answers
    obtain ⟨next, ran, answers'⟩ := afterQuery_runs answers.fits query
    exact ⟨next, ran, answers.trans answers'⟩

theorem factorize_runs (fits : session.Fits pattern signs)
    (values : Array α) :
    ∃ reply counters, session.factor.factorize session.plan session.settings
        values = .ok reply ∧
      session.factorize values = .ok ⟨reply.result,
        { session with factor := reply.state, counters }, reply.events⟩ ∧
      reply.state.Fits session.plan := by
  obtain ⟨reply, ran, fits'⟩ := Factor.Fits.factorize_runs fits.regular
    fits.factor session.settings values
  obtain ⟨counters, counted⟩ : ∃ counters, session.factorize values =
      .ok ⟨reply.result, { session with factor := reply.state, counters },
        reply.events⟩ := by
    rw [factorize, ran]
    exact ⟨_, rfl⟩
  exact ⟨reply, counters, ran, counted, fits'⟩

theorem afterCall_runs (fits : session.Fits pattern signs) (call : Call α) :
    ∃ next, session.afterCall call = .ok next ∧ next.Fits pattern signs ∧
      session.Keeps next := by
  cases call with
  | factorize values =>
      obtain ⟨reply, counters, _, ran, fits'⟩ := factorize_runs fits values
      rw [afterCall, ran]
      exact ⟨_, rfl, ⟨fits.regular, fits', fits.space⟩, ⟨rfl, rfl, rfl⟩⟩
  | factorizeMatrix matrix =>
      rw [afterCall, factorizeMatrix]
      split
      · exact ⟨_, rfl, fits, .refl session⟩
      · next values _ =>
        obtain ⟨reply, counters, _, ran, fits'⟩ := factorize_runs fits values
        rw [ran]
        exact ⟨_, rfl, ⟨fits.regular, fits', fits.space⟩, ⟨rfl, rfl, rfl⟩⟩
  | query query =>
      obtain ⟨next, ran, answers⟩ := afterQuery_runs fits query
      exact ⟨next, ran, answers.fits, answers.keeps⟩

theorem run_runs (fits : session.Fits pattern signs)
    (calls : List (Call α)) :
    ∃ next, session.run calls = .ok next ∧
      next.Fits pattern signs ∧ session.Keeps next := by
  apply Checked.foldlM_keeps fun next : Session α =>
    next.Fits pattern signs ∧ session.Keeps next
  · exact ⟨fits, .refl session⟩
  · intro state call _ kept
    obtain ⟨next, ran, fits', keeps⟩ := afterCall_runs kept.1 call
    exact ⟨next, ran, fits', kept.2.trans keeps⟩

variable {settings : Settings α} {events : List (Event α)}

/-- What starts is a session on the plan, with a fresh factor and nothing
counted. It is told of a routine that failed before it is told of the plan. -/
theorem start_eq_ok
    (started : start pattern signs settings = .ok (.ok (session, events))) :
    settings.validate = .ok () ∧ ∃ plan,
      Plan.make pattern signs settings.order = .ok (.ok plan) ∧
      session = ⟨pattern, settings, plan, .fresh plan, .ofSize plan.size,
        .zero⟩ ∧
      ∃ event, plan.event = .ok event ∧
        events = (settings.order.fallback pattern).toList.map .fellBack ++
          [event] := by
  unfold start at started
  cases validated : settings.validate with
  | error flaw =>
      rw [validated] at started
      cases started
  | ok =>
      rw [validated] at started
      dsimp only at started
      rw [Checked.bind_eq_ok_iff] at started
      obtain ⟨planned, ran, started⟩ := started
      unfold planFor at ran
      rw [Checked.bind_eq_ok_iff] at ran
      obtain ⟨found, made, ran⟩ := ran
      cases found with
      | error flaw =>
          cases ran
          cases started
      | ok plan =>
          dsimp only at ran
          rw [Checked.bind_eq_ok_iff] at ran
          obtain ⟨event, told, ran⟩ := ran
          cases ran
          cases started
          exact ⟨rfl, plan, made, rfl, event, told, rfl⟩

theorem start_warns
    (started : start pattern signs settings = .ok (.ok (session, events)))
    (reason : String) :
    .fellBack reason ∈ events ↔
      settings.order.fallback pattern = some reason := by
  obtain ⟨_, plan, _, _, event, told, rfl⟩ := start_eq_ok started
  rw [Plan.event, Checked.bind_eq_ok_iff] at told
  obtain ⟨filled, _, told⟩ := told
  cases told
  simp

theorem start_fits (constructed : pattern.Constructed)
    (started : start pattern signs settings = .ok (.ok (session, events))) :
    settings.validate = .ok () ∧ signs.size = pattern.size ∧
      session.pattern = pattern ∧ session.settings = settings ∧
      session.plan.order.order = settings.order.listing pattern ∧
      session.Fits pattern signs := by
  obtain ⟨validated, plan, made, rfl, _⟩ := start_eq_ok started
  obtain ⟨regular, listed, signs_size⟩ := Plan.make_regular constructed made
  exact ⟨validated, signs_size, rfl, rfl, listed, regular, Factor.fits_fresh,
    Workspace.fits_ofSize _⟩

theorem start_runs (constructed : pattern.Constructed)
    (signs_size : signs.size = pattern.size)
    (perm : (settings.order.listing pattern).toList.Perm
      (List.range pattern.size))
    (validated : settings.validate = .ok ()) :
    ∃ session events, start pattern signs settings =
      .ok (.ok (session, events)) := by
  obtain ⟨plan, made, regular, _⟩ :=
    Plan.make_runs constructed signs_size perm
  obtain ⟨event, fills⟩ : ∃ event : Event α, plan.event = .ok event := by
    rw [Plan.event, regular.fillIn_eq]
    exact ⟨_, rfl⟩
  unfold start planFor
  rw [validated, made]
  dsimp only
  rw [Checked.ok_bind]
  dsimp only
  rw [fills]
  exact ⟨_, _, rfl⟩

end Session

end QuasiDefinite
