import QuasiDefinite.Proofs.Session.Refined

namespace QuasiDefinite

variable {α : Type}

/-- What does not fit is refused, and nothing else is; then the state is as it
was before. -/
structure Reply.Spares {σ β : Type} (reply : Reply α σ β) (before : σ)
    (fits : Prop) : Prop where
  refused_iff : (∃ error, reply.result = .error error) ↔ ¬fits
  state_eq : ∀ error, reply.result = .error error → reply.state = before

theorem Reply.spares_refuse {σ β : Type} {before : σ} {error : Error α}
    {fits : Prop} (misfit : ¬fits) :
    (Reply.refuse before error : Reply α σ β).Spares before fits :=
  ⟨iff_of_true ⟨error, rfl⟩ misfit, fun _ _ => rfl⟩

theorem Reply.spares_ok {σ β : Type} {reply : Reply α σ β} {before : σ}
    {value : β} {fits : Prop} (answered : reply.result = .ok value)
    (fit : fits) : reply.Spares before fits := by
  refine ⟨iff_of_false ?_ (not_not_intro fit), ?_⟩
  · rintro ⟨error, refused⟩
    rw [answered] at refused
    cases refused
  · intro error refused
    rw [answered] at refused
    cases refused

namespace Session

/-- The right hand side and the target have the size of the system. -/
def Takes (session : Session α) (rhs target : Array α) : Prop :=
  rhs.size = session.size ∧ target.size = session.size

variable [Scalar α] {session : Session α} {pattern : Pattern}
  {signs : Array Sign} {rhs target : Array α}

def counted (session : Session α) (space : Workspace α) : Session α :=
  { session with
    space, counters.solves := session.counters.solves + 1 }

theorem solveInto_refuses (misfit : ¬session.Takes rhs target) :
    ∃ error, session.solveInto rhs target =
      .ok (.refuse (session, target) error) := by
  obtain ⟨error, refused⟩ := @Factor.solve_refuses _ _ session.plan
    session.factor session.space rhs target misfit
  rw [solveInto, refused]
  exact ⟨error, rfl⟩

theorem solveInto_answers (fits : session.Fits pattern signs)
    (takes : session.Takes rhs target) :
    ∃ space x, session.solveInto rhs target =
        .ok (.answer (session.counted space, x) ()) ∧
      session.Answers (session.counted space) pattern signs := by
  obtain ⟨work, x, _, _, ran, work_size, _⟩ :=
    Factor.solve_runs fits.regular fits.factor fits.space takes.1 takes.2
  refine ⟨{ session.space with work }, x, ?_, fits.answers
    ⟨work_size, fits.space.residual_size, fits.space.solution_size⟩⟩
  rw [solveInto, ran]
  rfl

theorem solveInto_spares (fits : session.Fits pattern signs)
    (rhs target : Array α) :
    ∃ reply, session.solveInto rhs target = .ok reply ∧
      reply.Spares (session, target) (session.Takes rhs target) := by
  by_cases takes : session.Takes rhs target
  · obtain ⟨space, x, ran, _⟩ := solveInto_answers fits takes
    exact ⟨_, ran, Reply.spares_ok rfl takes⟩
  · obtain ⟨error, ran⟩ := solveInto_refuses takes
    exact ⟨_, ran, Reply.spares_refuse takes⟩

theorem solveRefined_spares (fits : session.Fits pattern signs)
    (rhs target : Array α) :
    ∃ reply, session.solveRefined rhs target = .ok reply ∧
      reply.Spares (session, target) (session.Takes rhs target) := by
  by_cases takes : session.Takes rhs target
  · obtain ⟨_, _, _, _, _, _, ran, _⟩ :=
      solveRefined_follows fits takes.1 takes.2
    exact ⟨_, ran, Reply.spares_ok rfl takes⟩
  · obtain ⟨error, ran⟩ := solveInto_refuses takes
    refine ⟨.refuse (session, target) error, ?_, Reply.spares_refuse takes⟩
    rw [solveRefined, ran]
    rfl

section Pair

variable {rhs₁ rhs₂ target₁ target₂ : Array α}

theorem solvePair_refuses_first (misfit : ¬session.Takes rhs₁ target₁) :
    ∃ error, session.solvePair rhs₁ rhs₂ target₁ target₂ =
      .ok (.refuse (session, target₁, target₂) error) := by
  obtain ⟨error, ran⟩ := solveInto_refuses misfit
  refine ⟨error, ?_⟩
  rw [solvePair, ran]
  rfl

theorem solvePair_of_first {next : Session α} {x₁ : Array α}
    (ran : session.solveInto rhs₁ target₁ = .ok (.answer (next, x₁) ())) :
    session.solvePair rhs₁ rhs₂ target₁ target₂ =
      (fun reply => reply.mapState fun (session, x₂) => (session, x₁, x₂)) <$>
        next.solveInto rhs₂ target₂ := by
  rw [solvePair, ran]
  rfl

theorem solvePair_refuses_second (fits : session.Fits pattern signs)
    (takes : session.Takes rhs₁ target₁)
    (misfit : ¬session.Takes rhs₂ target₂) :
    ∃ space x₁ error, session.solveInto rhs₁ target₁ =
        .ok (.answer (session.counted space, x₁) ()) ∧
      session.solvePair rhs₁ rhs₂ target₁ target₂ =
        .ok (.refuse (session.counted space, x₁, target₂) error) := by
  obtain ⟨space, x₁, ran, answers⟩ := solveInto_answers fits takes
  have misfit' : ¬(session.counted space).Takes rhs₂ target₂ := misfit
  obtain ⟨error, refused⟩ := solveInto_refuses misfit'
  refine ⟨space, x₁, error, ran, ?_⟩
  rw [solvePair_of_first ran, refused]
  rfl

theorem solvePair_answers (fits : session.Fits pattern signs)
    (takes₁ : session.Takes rhs₁ target₁)
    (takes₂ : session.Takes rhs₂ target₂) :
    ∃ state, session.solvePair rhs₁ rhs₂ target₁ target₂ =
      .ok (.answer state ()) := by
  obtain ⟨space, x₁, ran, answers⟩ := solveInto_answers fits takes₁
  have takes₂' : (session.counted space).Takes rhs₂ target₂ := takes₂
  obtain ⟨space', x₂, ran', _⟩ := solveInto_answers answers.fits takes₂'
  refine ⟨((session.counted space).counted space', x₁, x₂), ?_⟩
  rw [solvePair_of_first ran, ran']
  rfl

end Pair

/-- A call whose lengths do not fit is refused and changes nothing, but that the
first of two systems is solved for and counted, whatever becomes of the
second. -/
structure SparesRefused (session : Session α) : Prop where
  solveInto : ∀ rhs target, ∃ reply,
    session.solveInto rhs target = .ok reply ∧
      reply.Spares (session, target) (session.Takes rhs target)
  solveRefined : ∀ rhs target, ∃ reply,
    session.solveRefined rhs target = .ok reply ∧
      reply.Spares (session, target) (session.Takes rhs target)
  solvePair : ∀ rhs₁ rhs₂ target₁ target₂, ∃ reply,
    session.solvePair rhs₁ rhs₂ target₁ target₂ = .ok reply ∧
      (¬(session.Takes rhs₁ target₁ ∧ ¬session.Takes rhs₂ target₂) →
        reply.Spares (session, target₁, target₂)
          (session.Takes rhs₁ target₁ ∧ session.Takes rhs₂ target₂)) ∧
      (session.Takes rhs₁ target₁ → ¬session.Takes rhs₂ target₂ →
        ∃ space x₁ error, session.solveInto rhs₁ target₁ =
            .ok (.answer (session.counted space, x₁) ()) ∧
          reply = .refuse (session.counted space, x₁, target₂) error)

theorem Fits.sparesRefused (fits : session.Fits pattern signs) :
    session.SparesRefused where
  solveInto := solveInto_spares fits
  solveRefined := solveRefined_spares fits
  solvePair rhs₁ rhs₂ target₁ target₂ := by
    by_cases takes₁ : session.Takes rhs₁ target₁
    · by_cases takes₂ : session.Takes rhs₂ target₂
      · obtain ⟨state, ran⟩ := solvePair_answers fits takes₁ takes₂
        exact ⟨_, ran, fun _ => Reply.spares_ok rfl ⟨takes₁, takes₂⟩,
          fun _ misfit => absurd takes₂ misfit⟩
      · obtain ⟨space, x₁, error, solved, ran⟩ :=
          solvePair_refuses_second fits takes₁ takes₂
        exact ⟨_, ran, fun other => absurd ⟨takes₁, takes₂⟩ other,
          fun _ _ => ⟨space, x₁, error, solved, rfl⟩⟩
    · obtain ⟨error, ran⟩ := solvePair_refuses_first takes₁
      exact ⟨_, ran, fun _ => Reply.spares_refuse fun both => takes₁ both.1,
        fun takes => absurd takes takes₁⟩

/-- After any calls, a solve is refused exactly where the lengths do not fit.
Then no target is written and nothing is counted, unless it is the second of
two systems that does not fit. -/
theorem refused_spares (constructed : pattern.Constructed)
    {settings : Settings α} {events : List (Event α)}
    (started : start pattern signs settings = .ok (.ok (session, events)))
    (calls : List (Call α)) :
    ∃ current, session.run calls = .ok current ∧ current.SparesRefused := by
  obtain ⟨_, _, _, _, _, fits⟩ := start_fits constructed started
  obtain ⟨current, ran, fits, _⟩ := run_runs fits calls
  exact ⟨current, ran, fits.sparesRefused⟩

theorem refused_spares_arrow :
    ∃ (session : Session Float) (events : List (Event Float)),
      start ⟨4, ⟨#[0, 1, 3, 5, 7], #[0, 0, 1, 0, 2, 0, 3]⟩⟩
        #[.positive, .negative, .positive, .negative]
        { Settings.standard with order := .supplied #[2, 0, 3, 1] } =
          .ok (.ok (session, events)) ∧
      ∃ current, session.run [.factorize #[2, 1, -3, 1, 2, 1, -3],
          .query (.solve #[1, 2, 3, 4])] = .ok current ∧
        current.SparesRefused := by
  have constructed : Pattern.Constructed
      ⟨4, ⟨#[0, 1, 3, 5, 7], #[0, 0, 1, 0, 2, 0, 3]⟩⟩ :=
    .upper (by cbv : Pattern.ofUpperEntries 4 [(0, 1), (0, 2), (0, 3)] = _)
  obtain ⟨session, events, started⟩ := @start_runs Float _ _
    #[.positive, .negative, .positive, .negative]
    { Settings.standard with order := .supplied #[2, 0, 3, 1] }
    constructed rfl (by decide) (by decide +kernel)
  exact ⟨session, events, started, refused_spares constructed started _⟩

/-- It is not true that a refused call changes nothing. Here the second right
hand side is empty, and the first system is solved for all the same. -/
theorem solvePair_not_spared :
    ¬ ∀ (pattern : Pattern) (signs : Array Sign) (settings : Settings Float)
      (session : Session Float) (events : List (Event Float))
      (calls : List (Call Float)) (current : Session Float)
      (rhs₁ rhs₂ target₁ target₂ : Array Float)
      (reply : Reply Float (Session Float × Array Float × Array Float) Unit)
      (error : Error Float), pattern.Constructed →
      start pattern signs settings = .ok (.ok (session, events)) →
      session.run calls = .ok current →
      current.solvePair rhs₁ rhs₂ target₁ target₂ = .ok reply →
      reply.result = .error error →
      reply.state.2 = (target₁, target₂) ∧
        reply.state.1.counters = current.counters := by
  intro claim
  have constructed : Pattern.Constructed ⟨1, ⟨#[0, 1], #[0]⟩⟩ :=
    .upper (by cbv : Pattern.ofUpperEntries 1 [] = _)
  have evaluated : ((start ⟨1, ⟨#[0, 1], #[0]⟩⟩ #[.positive]
      { Settings.standard with order := .natural }).toOption.bind
        fun outcome => outcome.toOption.bind fun started =>
          (started.1.run [.factorize #[2]]).toOption.bind fun current =>
            (current.solvePair #[4] #[] #[0] #[]).toOption.map fun reply =>
              (reply.result.toOption.isSome, reply.state.2)) =
      some (false, #[2], #[]) := by
    decide +kernel
  obtain ⟨outcome, ran, evaluated⟩ := Option.bind_eq_some_iff.mp evaluated
  obtain ⟨started, same, evaluated⟩ := Option.bind_eq_some_iff.mp evaluated
  obtain ⟨current, ran', evaluated⟩ := Option.bind_eq_some_iff.mp evaluated
  obtain ⟨reply, ran'', shown⟩ := Option.map_eq_some_iff.mp evaluated
  obtain ⟨refused, written⟩ := Prod.mk.inj shown
  obtain rfl := Checked.eq_ok_of_toOption same
  cases result : reply.result with
  | ok value =>
      rw [result] at refused
      cases refused
  | error error =>
      have spared := claim _ _ _ started.1 started.2 _ current _ _ _ _ reply
        error constructed (Checked.eq_ok_of_toOption ran)
        (Checked.eq_ok_of_toOption ran') (Checked.eq_ok_of_toOption ran'')
        result
      exact absurd (spared.1.symm.trans written) (by decide +kernel)

end Session

end QuasiDefinite
