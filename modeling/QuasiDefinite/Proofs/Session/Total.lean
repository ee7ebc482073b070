import QuasiDefinite.Proofs.Session.Interview

namespace QuasiDefinite

/-- What is read of a pattern without a check is there to be read. -/
structure Pattern.Inside (pattern : Pattern) : Prop where
  column : ∀ col, col < pattern.size →
    pattern.upper.list col = .ok (pattern.column col)
  slot : ∀ row col slot, pattern.slot? row col = some slot →
    slot < pattern.slotCount

theorem Pattern.WellFormed.inside {pattern : Pattern}
    (wellFormed : pattern.WellFormed) : pattern.Inside where
  column col inside := by
    obtain ⟨columns, rfl, _⟩ := wellFormed
    have found := List.getElem?_eq_getElem inside
    rw [column_ofColumns found]
    exact Compressed.list_ofLists found
  slot row col slot found := by
    rw [← wellFormed.length_entries]
    exact (List.getElem?_eq_some_iff.mp
      (wellFormed.slot?_eq_some_iff.mp found)).1

variable {pattern : Pattern} {signs : Array Sign}

theorem Plan.make_total {rule : OrderRule}
    (constructed : pattern.Constructed) :
    ∃ made, make pattern signs rule = .ok made := by
  rw [make]
  split
  · exact ⟨_, rfl⟩
  · next same =>
    cases accepted : rule.permutation pattern with
    | error flaw => exact ⟨_, rfl⟩
    | ok order =>
        obtain ⟨_, valid⟩ := OrderRule.permutation_valid accepted
        obtain ⟨plan, ran, _⟩ := ofOrder_runs
          (Pattern.wellFormed_of_constructed constructed)
          (Decidable.not_not.mp same) valid
        dsimp only
        rw [ran]
        exact ⟨_, rfl⟩

variable {α : Type}

inductive Response (α : Type) where
  | factored (reply : Reply α Unit (Summary α))
  | answered (answer : Answer α)

namespace Session

variable [Scalar α]

def respond (session : Session α) :
    Call α → Checked (Session α × Response α)
  | .factorize values => do
      let reply ← session.factorize values
      return (reply.state, .factored reply.bare)
  | .factorizeMatrix matrix => do
      let reply ← session.factorizeMatrix matrix
      return (reply.state, .factored reply.bare)
  | .query query => do
      let (next, answer) ← session.answer query
      return (next, .answered answer)

/-- The session after calls, one after the other, and what each was told. -/
def converse (session : Session α) :
    List (Call α) → Checked (Session α × List (Response α))
  | [] => return (session, [])
  | call :: rest => do
      let (next, response) ← session.respond call
      let (later, responses) ← next.converse rest
      return (later, response :: responses)

variable {session : Session α} {settings : Settings α}

theorem afterCall_eq (call : Call α) :
    session.afterCall call = Prod.fst <$> session.respond call := by
  cases call with
  | factorize values => simp only [afterCall, respond, map_bind, map_pure]
  | factorizeMatrix matrix =>
      simp only [afterCall, respond, map_bind, map_pure]
  | query query =>
      rw [afterCall, afterQuery_eq, respond]
      simp only [map_bind, map_pure]
      rfl

theorem start_total (constructed : pattern.Constructed) :
    ∃ outcome, start pattern signs settings = .ok outcome := by
  obtain ⟨made, ran⟩ := @Plan.make_total _ signs settings.order constructed
  rw [start]
  split
  · exact ⟨_, rfl⟩
  · rw [planFor, ran, Checked.ok_bind]
    cases made with
    | error flaw => exact ⟨_, rfl⟩
    | ok plan =>
        obtain ⟨regular, _⟩ := Plan.make_regular constructed ran
        dsimp only
        rw [Plan.event, regular.fillIn_eq]
        exact ⟨_, rfl⟩

theorem respond_runs (fits : session.Fits pattern signs) (call : Call α) :
    ∃ next response, session.respond call = .ok (next, response) ∧
      next.Fits pattern signs := by
  obtain ⟨next, ran, fits', _⟩ := afterCall_runs fits call
  rw [afterCall_eq] at ran
  obtain ⟨both, responded, rfl⟩ := Checked.map_eq_ok_iff.mp ran
  exact ⟨both.1, both.2, responded, fits'⟩

theorem converse_runs (fits : session.Fits pattern signs)
    (calls : List (Call α)) :
    ∃ later responses, session.converse calls = .ok (later, responses) ∧
      later.Fits pattern signs ∧ responses.length = calls.length := by
  induction calls generalizing session with
  | nil => exact ⟨session, [], rfl, fits, rfl⟩
  | cons call rest ih =>
      obtain ⟨next, response, ran, fits⟩ := respond_runs fits call
      obtain ⟨later, responses, ran', fits, length⟩ := ih fits
      refine ⟨later, response :: responses, ?_, fits, congrArg (· + 1) length⟩
      rw [converse, ran, Checked.ok_bind]
      dsimp only
      rw [ran']
      rfl

/-- On a constructed pattern a session is started or refused, and one that is
started replies to any calls, one after the other. A plan is also followed by
every history of factorizations with settings that no one has validated. -/
theorem converse_total (constructed : pattern.Constructed) :
    pattern.Inside ∧
      (∃ outcome, start pattern signs settings = .ok outcome) ∧
      (∀ session events,
        start pattern signs settings = .ok (.ok (session, events)) →
        ∀ calls, ∃ later responses,
          session.converse calls = .ok (later, responses) ∧
          responses.length = calls.length) ∧
      ∀ plan, Plan.make pattern signs settings.order = .ok (.ok plan) →
        ∀ history : List (Settings α × Array α), ∃ factor,
          Factor.replay plan history = .ok factor := by
  have wellFormed := Pattern.wellFormed_of_constructed constructed
  refine ⟨wellFormed.inside, start_total constructed, ?_, ?_⟩
  · intro session events started calls
    obtain ⟨_, _, _, _, _, fits⟩ := start_fits constructed started
    obtain ⟨later, responses, ran, _, length⟩ := converse_runs fits calls
    exact ⟨later, responses, ran, length⟩
  · intro plan made history
    obtain ⟨regular, _⟩ := Plan.make_regular constructed made
    obtain ⟨factor, ran, _⟩ := Factor.replay_fits regular history
    exact ⟨factor, ran⟩

/-- An arrow in the order of minimum degree, offered too few values, one that is
not a number, and then a right hand side that does not fit. -/
theorem converse_total_arrow :
    ∃ outcome, start ⟨4, ⟨#[0, 1, 3, 5, 7], #[0, 0, 1, 0, 2, 0, 3]⟩⟩
        #[.positive, .negative, .positive, .negative] Settings.standard =
          .ok outcome ∧
      ∀ session events, outcome = .ok (session, events) →
        ∃ later responses, session.converse [.factorize #[2, 1],
            .factorize #[2, 0 / 0, -3, 1, 2, 1, -3],
            .query (.solveRefined #[1] #[])] = .ok (later, responses) ∧
          responses.length = 3 := by
  have constructed : Pattern.Constructed
      ⟨4, ⟨#[0, 1, 3, 5, 7], #[0, 0, 1, 0, 2, 0, 3]⟩⟩ :=
    .upper (by cbv : Pattern.ofUpperEntries 4 [(0, 1), (0, 2), (0, 3)] = _)
  obtain ⟨_, ⟨outcome, ran⟩, answers, _⟩ :=
    @converse_total _ #[.positive, .negative, .positive, .negative] Float _
      Settings.standard constructed
  refine ⟨outcome, ran, ?_⟩
  intro session events started
  obtain rfl := started
  exact answers session events ran _

end Session

end QuasiDefinite
