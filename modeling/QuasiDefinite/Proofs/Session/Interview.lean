import QuasiDefinite.Proofs.Factor.Workspace
import QuasiDefinite.Proofs.Session.Calls

namespace QuasiDefinite

variable {α : Type}

/-- What a query is told: its result, what was written over its targets, and the
events on the way. -/
inductive Answer (α : Type) where
  | written (reply : Reply α (Array α) Unit)
  | solution (reply : Reply α Unit (Array α))
  | pair (reply : Reply α (Array α × Array α) Unit)
  | refined (reply : Reply α (Array α) (Refinement α))
  | norm (reply : Reply α Unit α)

/-- The reply for two systems from a reply for each. The second target is left
alone when the first system is refused. -/
def Reply.both (first second : Reply α (Array α) Unit) (target₂ : Array α) :
    Reply α (Array α × Array α) Unit :=
  match first.result with
  | .error error => .refuse (first.state, target₂) error
  | .ok () => second.mapState fun solution₂ => (first.state, solution₂)

namespace Session

variable [Scalar α]

def answer (session : Session α) : Query α → Checked (Session α × Answer α)
  | .solveInto rhs target => do
      let reply ← session.solveInto rhs target
      return (reply.state.1, .written reply.told)
  | .solve rhs => do
      let reply ← session.solve rhs
      return (reply.state, .solution reply.bare)
  | .solvePair rhs₁ rhs₂ target₁ target₂ => do
      let reply ← session.solvePair rhs₁ rhs₂ target₁ target₂
      return (reply.state.1, .pair reply.told)
  | .solveRefined rhs target => do
      let reply ← session.solveRefined rhs target
      return (reply.state.1, .refined reply.told)
  | .residualNormSq rhs x => do
      let reply ← session.residualNormSq rhs x
      return (reply.state, .norm reply.bare)
  | .defectNormSq => do
      let reply ← session.defectNormSq
      return (reply.state, .norm reply.bare)
  | .checkResidual rhs x => do
      let reply ← session.checkResidual rhs x
      return (reply.state, .norm reply.bare)

def told (session : Session α) (query : Query α) : Checked (Answer α) :=
  Prod.snd <$> session.answer query

/-- The session after queries, one after the other, and what each was told. -/
def interview (session : Session α) :
    List (Query α) → Checked (Session α × List (Answer α))
  | [] => return (session, [])
  | query :: rest => do
      let (next, answer) ← session.answer query
      let (later, answers) ← next.interview rest
      return (later, answer :: answers)

def cleared (session : Session α) : Session α :=
  { session with space := .ofSize session.size }

variable {session before after : Session α} {pattern : Pattern}
  {signs : Array Sign} {rhs x target : Array α}

theorem afterQuery_eq (query : Query α) :
    session.afterQuery query = Prod.fst <$> session.answer query := by
  cases query <;> simp only [afterQuery, answer, map_bind, map_pure]

theorem Fits.cleared (fits : session.Fits pattern signs) :
    session.Answers session.cleared pattern signs :=
  fits.answers (Workspace.fits_ofSize _)

theorem Answers.space (answers : before.Answers after pattern signs) :
    after.space.Fits before.plan.size :=
  answers.keeps.plan ▸ answers.fits.space

/-! What is told before and after other answers. -/

theorem told_solveInto : Reply.told <$> session.solveInto rhs target =
    Reply.told <$> session.factor.solve session.plan session.space rhs
      target := by
  rw [solveInto, map_bind]
  simp only [map_pure]
  rfl

theorem solveInto_congr (fits : before.Fits pattern signs)
    (answers : before.Answers after pattern signs) (rhs target : Array α) :
    Reply.told <$> after.solveInto rhs target =
      Reply.told <$> before.solveInto rhs target := by
  rw [told_solveInto, told_solveInto, answers.factor, answers.keeps.plan]
  exact Factor.solve_congr_space fits.space answers.space

theorem solve_congr (fits : before.Fits pattern signs)
    (answers : before.Answers after pattern signs) (rhs : Array α) :
    Reply.bare <$> after.solve rhs = Reply.bare <$> before.solve rhs := by
  have size : after.size = before.size := congrArg Plan.size answers.keeps.plan
  rw [solve, solve, size, map_bind, map_bind]
  refine Checked.bind_congr_of_map (solveInto_congr fits answers rhs _) ?_
  intro reply' reply same
  obtain ⟨result, ⟨_, solution⟩, events⟩ := reply
  obtain ⟨result', ⟨_, solution'⟩, events'⟩ := reply'
  cases same
  rfl

theorem solvePair_both (fits : session.Fits pattern signs)
    (rhs₁ rhs₂ target₁ target₂ : Array α) :
    ∃ first second,
      Reply.told <$> session.solveInto rhs₁ target₁ = .ok first ∧
      Reply.told <$> session.solveInto rhs₂ target₂ = .ok second ∧
      Reply.told <$> session.solvePair rhs₁ rhs₂ target₁ target₂ =
        .ok (first.both second target₂) := by
  obtain ⟨reply₁, ran₁, answers₁⟩ := solveInto_runs fits rhs₁ target₁
  obtain ⟨reply₂, ran₂, answers₂⟩ := solveInto_runs fits rhs₂ target₂
  refine ⟨reply₁.told, reply₂.told, by rw [ran₁]; rfl, by rw [ran₂]; rfl, ?_⟩
  have alike := solveInto_congr fits answers₁ rhs₂ target₂
  rw [solvePair, ran₁, Checked.ok_bind]
  obtain ⟨result₁, ⟨next, solution₁⟩, events₁⟩ := reply₁
  cases result₁ with
  | error error => rfl
  | ok _ =>
      obtain ⟨reply, ran, _⟩ := solveInto_runs answers₁.fits rhs₂ target₂
      dsimp only at ran alike ⊢
      rw [ran, ran₂] at alike
      rw [ran]
      have same : reply.told = reply₂.told := Except.ok.inj alike
      rw [← same]
      rfl

theorem solvePair_congr (fits : before.Fits pattern signs)
    (answers : before.Answers after pattern signs)
    (rhs₁ rhs₂ target₁ target₂ : Array α) :
    Reply.told <$> after.solvePair rhs₁ rhs₂ target₁ target₂ =
      Reply.told <$> before.solvePair rhs₁ rhs₂ target₁ target₂ := by
  obtain ⟨first, second, told₁, told₂, both⟩ :=
    solvePair_both fits rhs₁ rhs₂ target₁ target₂
  obtain ⟨first', second', told₁', told₂', both'⟩ :=
    solvePair_both answers.fits rhs₁ rhs₂ target₁ target₂
  rw [solveInto_congr fits answers, told₁] at told₁'
  rw [solveInto_congr fits answers, told₂] at told₂'
  cases told₁'
  cases told₂'
  rw [both, both']

theorem solveRefined_congr (fits : before.Fits pattern signs)
    (answers : before.Answers after pattern signs) (rhs target : Array α) :
    Reply.told <$> after.solveRefined rhs target =
      Reply.told <$> before.solveRefined rhs target := by
  obtain ⟨reply, ran, solved⟩ := solveInto_runs fits rhs target
  obtain ⟨reply', ran', solved'⟩ := solveInto_runs answers.fits rhs target
  have alike := solveInto_congr fits answers rhs target
  rw [ran, ran'] at alike
  rw [solveRefined, solveRefined, ran, ran', Checked.ok_bind, Checked.ok_bind]
  obtain ⟨result, ⟨next, solution⟩, events⟩ := reply
  obtain ⟨result', ⟨next', solution'⟩, events'⟩ := reply'
  cases alike
  cases result with
  | error error => rfl
  | ok _ =>
      have solved' := answers.trans solved'
      dsimp only at solved solved' ⊢
      rw [solved.factor, solved.keeps.plan, solved.keeps.settings,
        solved'.factor, solved'.keeps.plan, solved'.keeps.settings,
        map_bind, map_bind]
      refine Checked.bind_congr_of_map
        (Factor.refine_congr_space solved.space solved'.space _ _) ?_
      intro refined' refined same
      obtain ⟨_, ⟨_, _⟩, _⟩ := refined
      obtain ⟨_, ⟨_, _⟩, _⟩ := refined'
      cases same
      rfl

theorem residualNormSq_congr (fits : before.Fits pattern signs)
    (answers : before.Answers after pattern signs) (rhs x : Array α) :
    Reply.bare <$> after.residualNormSq rhs x =
      Reply.bare <$> before.residualNormSq rhs x := by
  rw [residualNormSq, residualNormSq, answers.factor, answers.keeps.plan,
    map_bind, map_bind]
  refine Checked.bind_congr_of_map
    (Factor.residualNormSq_congr_space fits.space answers.space) ?_
  intro reply' reply same
  cases reply
  cases reply'
  cases same
  rfl

theorem defectNormSq_congr (fits : before.Fits pattern signs)
    (answers : before.Answers after pattern signs) :
    Reply.bare <$> after.defectNormSq = Reply.bare <$> before.defectNormSq := by
  rw [defectNormSq, defectNormSq, answers.factor, answers.keeps.plan,
    map_bind, map_bind]
  refine Checked.bind_congr_of_map
    (Factor.defectNormSq_congr_space fits.space answers.space) ?_
  intro measured' measured same
  cases measured
  cases measured'
  cases same
  rfl

theorem checkResidual_congr (fits : before.Fits pattern signs)
    (answers : before.Answers after pattern signs) (rhs x : Array α) :
    Reply.bare <$> after.checkResidual rhs x =
      Reply.bare <$> before.checkResidual rhs x := by
  rw [checkResidual, checkResidual, answers.factor]
  split
  · exact residualNormSq_congr fits answers rhs x
  · rfl

/-! All queries are told what is looked at of some reply. -/

section Looks

variable {σ τ : Type} {look : σ → τ} {run run' : Checked σ}

omit [Scalar α] in
theorem snd_map_look (make : τ → Answer α) (left : σ → Session α) :
    (Prod.snd <$> do
      let reply ← run
      return (left reply, make (look reply))) = make <$> look <$> run := by
  cases run with
  | error _ => rfl
  | ok _ => rfl

omit [Scalar α] in
theorem told_of_map (same : look <$> run' = look <$> run) (make : τ → Answer α)
    (left left' : σ → Session α) :
    (Prod.snd <$> do
      let reply ← run'
      return (left' reply, make (look reply))) =
    (Prod.snd <$> do
      let reply ← run
      return (left reply, make (look reply))) := by
  rw [snd_map_look, snd_map_look, same]

end Looks

/-- No query is told anything from what another left in the workspace. -/
theorem told_congr (fits : before.Fits pattern signs)
    (answers : before.Answers after pattern signs) (query : Query α) :
    after.told query = before.told query := by
  cases query with
  | solveInto rhs target =>
      exact told_of_map (solveInto_congr fits answers rhs target) .written _ _
  | solve rhs =>
      exact told_of_map (solve_congr fits answers rhs) .solution _ _
  | solvePair rhs₁ rhs₂ target₁ target₂ =>
      exact told_of_map (solvePair_congr fits answers ..) .pair _ _
  | solveRefined rhs target =>
      exact told_of_map (solveRefined_congr fits answers rhs target) .refined
        _ _
  | residualNormSq rhs x =>
      exact told_of_map (residualNormSq_congr fits answers rhs x) .norm _ _
  | defectNormSq =>
      exact told_of_map (defectNormSq_congr fits answers) .norm _ _
  | checkResidual rhs x =>
      exact told_of_map (checkResidual_congr fits answers rhs x) .norm _ _

theorem answer_runs (fits : session.Fits pattern signs) (query : Query α) :
    ∃ next answer, session.answer query = .ok (next, answer) ∧
      session.Answers next pattern signs := by
  obtain ⟨next, ran, answers⟩ := afterQuery_runs fits query
  rw [afterQuery_eq] at ran
  obtain ⟨both, answered, rfl⟩ := Checked.map_eq_ok_iff.mp ran
  exact ⟨both.1, both.2, answered, answers⟩

theorem interview_runs (fits : session.Fits pattern signs)
    (queries : List (Query α)) :
    ∃ later answers, session.interview queries = .ok (later, answers) ∧
      session.Answers later pattern signs ∧
      queries.mapM session.told = .ok answers := by
  induction queries generalizing session with
  | nil => exact ⟨session, [], rfl, ⟨fits, .refl session, rfl⟩, rfl⟩
  | cons query rest ih =>
      obtain ⟨next, answer, ran, answers⟩ := answer_runs fits query
      obtain ⟨later, others, ran', answers', told⟩ := ih answers.fits
      refine ⟨later, answer :: others, ?_, answers.trans answers', ?_⟩
      · rw [interview, ran, Checked.ok_bind]
        dsimp only
        rw [ran']
        rfl
      · have first : session.told query = .ok answer := by
          rw [Session.told, ran]
          rfl
        rw [funext (told_congr fits answers)] at told
        rw [List.mapM_cons, first, Checked.ok_bind, told]
        rfl

/-- After any calls, and so after every factorization, queries in any order
leave the factorization as it is, and each of them is told what it would be
told first, with a workspace of zeros. Two systems solved for together are told
what each would be told alone. -/
theorem interview_independent (constructed : pattern.Constructed)
    {settings : Settings α} {events : List (Event α)}
    (started : start pattern signs settings = .ok (.ok (session, events)))
    (calls : List (Call α)) :
    ∃ current, session.run calls = .ok current ∧
      ∀ queries, ∃ later answers,
        current.interview queries = .ok (later, answers) ∧
        later.factor = current.factor ∧
        queries.mapM current.cleared.told = .ok answers ∧
        ∀ rhs₁ rhs₂ target₁ target₂, ∃ first second,
          current.cleared.told (.solveInto rhs₁ target₁) =
            .ok (.written first) ∧
          current.cleared.told (.solveInto rhs₂ target₂) =
            .ok (.written second) ∧
          later.told (.solvePair rhs₁ rhs₂ target₁ target₂) =
            .ok (.pair (first.both second target₂)) := by
  obtain ⟨_, _, _, _, _, fits⟩ := start_fits constructed started
  obtain ⟨current, ran, fits, _⟩ := run_runs fits calls
  refine ⟨current, ran, fun queries => ?_⟩
  obtain ⟨later, answers, ran, same, told⟩ := interview_runs fits queries
  have clear : current.cleared.told = current.told :=
    funext (told_congr fits fits.cleared)
  have still : later.told = current.told := funext (told_congr fits same)
  refine ⟨later, answers, ran, same.factor, clear ▸ told, ?_⟩
  intro rhs₁ rhs₂ target₁ target₂
  obtain ⟨first, second, told₁, told₂, both⟩ :=
    solvePair_both fits rhs₁ rhs₂ target₁ target₂
  rw [clear, still]
  refine ⟨first, second, ?_, ?_, ?_⟩
  · exact (snd_map_look .written _).trans (congrArg (_ <$> ·) told₁)
  · exact (snd_map_look .written _).trans (congrArg (_ <$> ·) told₂)
  · exact (snd_map_look .pair _).trans (congrArg (_ <$> ·) both)

/-- An arrow is factored in the arithmetic of the machine; a refined solution,
two norms and a right hand side that does not fit come before a solution. -/
theorem interview_independent_arrow :
    ∃ (session : Session Float) (events : List (Event Float)),
      start ⟨4, ⟨#[0, 1, 3, 5, 7], #[0, 0, 1, 0, 2, 0, 3]⟩⟩
        #[.positive, .negative, .positive, .negative]
        { Settings.standard with order := .supplied #[2, 0, 3, 1] } =
          .ok (.ok (session, events)) ∧
      ∃ current, session.run [.factorize #[2, 1, -3, 1, 2, 1, -3]] =
          .ok current ∧
        ∃ later answers, current.interview [.solveRefined #[1, 2, 3, 4]
              #[0, 0, 0, 0], .residualNormSq #[1, 2, 3, 4] #[1, 1, 1, 1],
            .defectNormSq, .solve #[1], .solve #[4, 3, 2, 1]] =
              .ok (later, answers) ∧
          later.factor = current.factor ∧
          [.solveRefined #[1, 2, 3, 4] #[0, 0, 0, 0],
            .residualNormSq #[1, 2, 3, 4] #[1, 1, 1, 1], .defectNormSq,
            .solve #[1], .solve #[4, 3, 2, 1]].mapM current.cleared.told =
              .ok answers := by
  have constructed : Pattern.Constructed
      ⟨4, ⟨#[0, 1, 3, 5, 7], #[0, 0, 1, 0, 2, 0, 3]⟩⟩ :=
    .upper (by cbv : Pattern.ofUpperEntries 4 [(0, 1), (0, 2), (0, 3)] = _)
  obtain ⟨session, events, started⟩ := @start_runs Float _ _
    #[.positive, .negative, .positive, .negative]
    { Settings.standard with order := .supplied #[2, 0, 3, 1] }
    constructed rfl (by decide) (by decide +kernel)
  obtain ⟨current, ran, asked⟩ := interview_independent constructed started
    [.factorize #[2, 1, -3, 1, 2, 1, -3]]
  obtain ⟨later, answers, interviewed, same, told, _⟩ := asked
    [.solveRefined #[1, 2, 3, 4] #[0, 0, 0, 0],
      .residualNormSq #[1, 2, 3, 4] #[1, 1, 1, 1], .defectNormSq,
      .solve #[1], .solve #[4, 3, 2, 1]]
  exact ⟨session, events, started, current, ran, later, answers, interviewed,
    same, told⟩

end Session

end QuasiDefinite
