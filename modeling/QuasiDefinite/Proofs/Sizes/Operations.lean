import QuasiDefinite.Proofs.Sizes.Calls

namespace QuasiDefinite

variable {α : Type}

inductive Operation (α : Type) where
  | gather (pattern : Pattern) (matrix : Sparse α)
  | factorize (plan : Plan) (settings : Settings α) (values : Array α)
      (factor : Factor α)
  | solve (plan : Plan) (factor : Factor α) (space : Workspace α)
      (rhs target : Array α)
  | residualNormSq (plan : Plan) (factor : Factor α) (space : Workspace α)
      (rhs x : Array α)
  | refine (plan : Plan) (factor : Factor α) (space : Workspace α)
      (rhs x : Array α) (tolerance : α) (limit : Nat)
  | start (pattern : Pattern) (signs : Array Sign) (settings : Settings α)
  | call (session : Session α) (call : Call α)
  | assemble (layout : Layout) (blocks : Blocks α)
  | update (system : NewtonSystem α) (update : Update α)
  | split (layout : Layout) (vector : Array α)
  | modify (layout : Layout) (vector : Array α) (change : Parts α → Parts α)

namespace Operation

/-- The sizes asked for and those passed, in the order in which they are looked
at. -/
def demands : Operation α → List (Quantity × Nat × Nat)
  | gather pattern matrix => pattern.demands matrix
  | factorize plan _ values _ =>
      [(.factorizeValues, plan.matrixCount, values.size)]
  | solve plan _ space rhs target =>
      [(.solveRhs, plan.size, rhs.size), (.solveOutput, plan.size, target.size),
        (.solveWorkspace, plan.size, space.size)]
  | residualNormSq plan _ space rhs x | refine plan _ space rhs x _ _ =>
      [(.residualRhs, plan.size, rhs.size),
        (.residualSolution, plan.size, x.size),
        (.residualWorkspace, plan.size, space.size)]
  | start .. => []
  | call session request => request.demands session
  | assemble layout blocks =>
      [Block.cost, .equality, .inequality].flatMap fun block =>
        layout.demands block (blocks.get block)
  | update system change => change.demands system.layout
  | split layout vector | modify layout vector _ =>
      [(.systemVector, layout.size, vector.size)]

def matrix? : Operation α → Option (Pattern × Sparse α)
  | gather pattern matrix => some (pattern, matrix)
  | call session (.factorizeMatrix matrix) => some (session.pattern, matrix)
  | _ => none

/-- The matrix that is read into a pattern is too small in one dimension and
fits in the other. -/
def FallsShort (operation : Operation α) : Prop :=
  ∃ pattern matrix, operation.matrix? = some (pattern, matrix) ∧
    max matrix.rows matrix.cols = pattern.size ∧
    min matrix.rows matrix.cols < pattern.size

variable [Scalar α]

def outcome : Operation α → Checked (Except (Error α) Unit)
  | gather pattern matrix => .ok (verdict (pattern.gather matrix))
  | factorize plan settings values factor => do
      return verdict (← factor.factorize plan settings values).result
  | solve plan factor space rhs target => do
      return verdict (← factor.solve plan space rhs target).result
  | residualNormSq plan factor space rhs x => do
      return verdict (← factor.residualNormSq plan space rhs x).result
  | refine plan factor space rhs x tolerance limit => do
      return verdict
        (← factor.refine plan space rhs x tolerance limit).result
  | start pattern signs settings => do
      return verdict (← Session.start pattern signs settings)
  | call session request => do
      return (← session.respond request).2.verdict
  | assemble layout blocks =>
      .ok (verdict (NewtonSystem.assemble layout blocks))
  | update system change => .ok (change.apply system).result
  | split layout vector => .ok (verdict (layout.split vector))
  | modify layout vector change => .ok (verdict (layout.modify vector change))

/-- Sessions are those that were started on a constructed pattern and then
called. -/
def Reached : Operation α → Prop
  | call session _ => ∃ (pattern : Pattern) (signs : Array Sign)
      (settings : Settings α) (first : Session α) (events : List (Event α))
      (calls : List (Call α)), pattern.Constructed ∧
        Session.start pattern signs settings = .ok (.ok (first, events)) ∧
        first.run calls = .ok session
  | _ => True

variable {operation : Operation α} {result : Except (Error α) Unit}

theorem Reached.fits {session : Session α} {request : Call α}
    (reached : (call session request).Reached) :
    ∃ signs, session.Fits session.pattern signs := by
  obtain ⟨pattern, signs, settings, first, events, calls, constructed, started,
    ran⟩ := reached
  obtain ⟨_, _, same, _, _, fits⟩ := Session.start_fits constructed started
  obtain ⟨later, ran', fits, keeps⟩ := Session.run_runs fits calls
  cases ran.symm.trans ran'
  exact ⟨signs, (keeps.pattern.trans same).symm ▸ fits⟩

/-- Where no matrix is read into a pattern, sizes are refused as the demands
say. -/
theorem refusesBy_demands (reached : operation.Reached)
    (ran : operation.outcome = .ok result) (plain : operation.matrix? = none)
    (asked : result ≠ .error .notFactored) :
    RefusesBy operation.demands result := by
  cases operation with
  | gather pattern matrix => cases plain
  | factorize plan settings values factor =>
      obtain ⟨reply, factored, made⟩ := Checked.bind_eq_ok_iff.mp ran
      cases made
      exact refusesBy_verdict.mpr (Factor.refusesBy_factorize factored)
  | solve plan factor space rhs target =>
      obtain ⟨reply, solved, made⟩ := Checked.bind_eq_ok_iff.mp ran
      cases made
      exact refusesBy_of_eq (Factor.verdict_solve solved)
  | residualNormSq plan factor space rhs x =>
      obtain ⟨reply, measured, made⟩ := Checked.bind_eq_ok_iff.mp ran
      cases made
      exact refusesBy_of_eq (Factor.verdict_residualNormSq measured)
  | refine plan factor space rhs x tolerance limit =>
      obtain ⟨reply, refined, made⟩ := Checked.bind_eq_ok_iff.mp ran
      cases made
      exact refusesBy_of_eq (Factor.verdict_refine refined)
  | start pattern signs settings =>
      obtain ⟨outcome, started, made⟩ := Checked.bind_eq_ok_iff.mp ran
      cases made
      exact refusesBy_verdict.mpr
        (Session.refusesNone_start started).refusesBy_nil
  | call session request =>
      obtain ⟨signs, fits⟩ := reached.fits
      obtain ⟨both, responded, made⟩ := Checked.bind_eq_ok_iff.mp ran
      cases made
      cases request with
      | factorize values =>
          obtain ⟨reply, factored, made⟩ :=
            Checked.bind_eq_ok_iff.mp responded
          cases made
          exact refusesBy_verdict.mpr
            (Session.refusesBy_factorize fits factored)
      | factorizeMatrix matrix => cases plain
      | query question =>
          obtain ⟨answered, told, made⟩ := Checked.bind_eq_ok_iff.mp responded
          cases made
          exact refusesBy_of_eq (Session.verdict_answer fits told asked)
  | assemble layout blocks =>
      cases ran
      exact refusesBy_verdict.mpr (refusesBy_assemble layout blocks)
  | update system change =>
      cases ran
      exact refusesBy_apply system change
  | split layout vector =>
      cases ran
      exact refusesBy_of_eq (verdict_split layout vector)
  | modify layout vector change =>
      cases ran
      exact refusesBy_of_eq (verdict_modify layout vector change)

theorem dimension_of_matrix (reached : operation.Reached)
    (ran : operation.outcome = .ok result) {pattern : Pattern}
    {matrix : Sparse α} (read : operation.matrix? = some (pattern, matrix))
    (quantity : Quantity) (expected actual : Nat) :
    result = .error (.dimension quantity expected actual) ↔
      pattern.gather matrix =
        .error (.dimension quantity expected actual) := by
  cases operation with
  | gather pattern matrix =>
      cases ran
      cases read
      exact verdict_eq_error_iff
  | call session request =>
      cases request with
      | factorizeMatrix matrix =>
          cases read
          obtain ⟨signs, fits⟩ := reached.fits
          obtain ⟨both, responded, made⟩ := Checked.bind_eq_ok_iff.mp ran
          cases made
          obtain ⟨reply, factored, made⟩ :=
            Checked.bind_eq_ok_iff.mp responded
          cases made
          exact verdict_eq_error_iff.trans
            (Session.factorizeMatrix_eq_dimension_iff fits rfl factored ..)
      | factorize values => cases read
      | query question => cases read
  | factorize | solve | residualNormSq | refine | start | assemble | update
  | split | modify => cases read

/-- An error names a size that was passed and the one that was asked for in its
place. They differ, unless a matrix falls short in one dimension only. Sizes are
refused if one of them differs from what is asked for, except where there are no
factors yet to measure against. -/
structure Truthful (operation : Operation α)
    (result : Except (Error α) Unit) : Prop where
  passed : ∀ quantity expected actual,
    result = .error (.dimension quantity expected actual) →
      (quantity, expected, actual) ∈ operation.demands
  differs : ∀ quantity expected actual,
    result = .error (.dimension quantity expected actual) →
      (expected ≠ actual ↔ ¬operation.FallsShort)
  refused_iff : (∃ quantity expected actual,
      result = .error (.dimension quantity expected actual)) ↔
    result ≠ .error .notFactored ∧
      ∃ demand ∈ operation.demands, demand.2.1 ≠ demand.2.2

theorem truthful_of_plain (reached : operation.Reached)
    (ran : operation.outcome = .ok result)
    (plain : operation.matrix? = none) : operation.Truthful result := by
  have fitting : ¬operation.FallsShort := by
    rintro ⟨pattern, matrix, read, _⟩
    cases plain.symm.trans read
  by_cases asked : result = .error .notFactored
  · subst asked
    refine ⟨fun _ _ _ => nofun, fun _ _ _ => nofun, ?_⟩
    simp
  · have refuses := refusesBy_demands reached ran plain asked
    refine ⟨?_, ?_, ?_⟩
    · intro quantity expected actual refused
      exact (refuses.dimension refused).1
    · intro quantity expected actual refused
      exact iff_of_true (refuses.dimension refused).2 fitting
    · rw [and_iff_right asked]
      exact refuses.exists_iff

omit [Scalar α] in
theorem demands_of_matrix {pattern : Pattern} {matrix : Sparse α}
    (read : operation.matrix? = some (pattern, matrix)) :
    operation.demands = pattern.demands matrix := by
  cases operation with
  | gather pattern matrix =>
      cases read
      rfl
  | call session request =>
      cases request with
      | factorizeMatrix matrix =>
          cases read
          rfl
      | factorize values => cases read
      | query question => cases read
  | factorize | solve | residualNormSq | refine | start | assemble | update
  | split | modify => cases read

theorem truthful_of_matrix (reached : operation.Reached)
    (ran : operation.outcome = .ok result) {pattern : Pattern}
    {matrix : Sparse α}
    (read : operation.matrix? = some (pattern, matrix)) :
    operation.Truthful result := by
  have dimension_iff (quantity : Quantity) (expected actual : Nat) :=
    (dimension_of_matrix reached ran read quantity expected actual).trans
      gather_eq_dimension_iff
  have short : operation.FallsShort ↔
      max matrix.rows matrix.cols = pattern.size ∧
        min matrix.rows matrix.cols < pattern.size := by
    constructor
    · rintro ⟨_, _, read', sizes⟩
      cases read.symm.trans read'
      exact sizes
    · exact fun sizes => ⟨pattern, matrix, read, sizes⟩
  refine ⟨?_, ?_, ?_⟩
  · intro quantity expected actual refused
    obtain ⟨_, same⟩ := (dimension_iff ..).mp refused
    cases same
    rw [demands_of_matrix read, Pattern.demands]
    rcases max_choice matrix.rows matrix.cols with rows | cols
    · simp [rows]
    · simp [cols]
  · intro quantity expected actual refused
    obtain ⟨misfit, same⟩ := (dimension_iff ..).mp refused
    cases same
    rw [short]
    omega
  · rw [demands_of_matrix read, Pattern.demands]
    by_cases sizes : matrix.rows = pattern.size ∧ matrix.cols = pattern.size
    · refine iff_of_false ?_ ?_
      · rintro ⟨quantity, expected, actual, refused⟩
        exact ((dimension_iff ..).mp refused).1 sizes
      · simp [sizes]
    · have refused := (dimension_iff ..).mpr ⟨sizes, rfl⟩
      refine iff_of_true ⟨_, _, _, refused⟩ ⟨?_, ?_⟩
      · rw [refused]
        exact nofun
      · simp
        omega

/-- Whatever operation answers it and whatever was passed, an error about a size
is truthful, up to a matrix that falls short in one dimension. -/
theorem dimension_truthful (operation : Operation α)
    (reached : operation.Reached)
    (ran : operation.outcome = .ok result) : operation.Truthful result := by
  cases read : operation.matrix? with
  | none => exact truthful_of_plain reached ran read
  | some both => exact truthful_of_matrix reached ran read

/-- An arrow is factored; then two systems are offered of which the second has
neither a right hand side nor a target of the right size. -/
theorem dimension_truthful_arrow :
    ∃ (session : Session Float) (events : List (Event Float)),
      Session.start ⟨4, ⟨#[0, 1, 3, 5, 7], #[0, 0, 1, 0, 2, 0, 3]⟩⟩
        #[.positive, .negative, .positive, .negative]
        { Settings.standard with order := .supplied #[2, 0, 3, 1] } =
          .ok (.ok (session, events)) ∧
      ∃ current, session.run [.factorize #[2, 1, -3, 1, 2, 1, -3]] =
          .ok current ∧
        ∃ result, (call current (.query (.solvePair #[1, 2, 3, 4] #[1]
            #[0, 0, 0, 0] #[]))).outcome = .ok result ∧
          (call current (.query (.solvePair #[1, 2, 3, 4] #[1]
            #[0, 0, 0, 0] #[]))).Truthful result := by
  have constructed : Pattern.Constructed
      ⟨4, ⟨#[0, 1, 3, 5, 7], #[0, 0, 1, 0, 2, 0, 3]⟩⟩ :=
    .upper (by cbv : Pattern.ofUpperEntries 4 [(0, 1), (0, 2), (0, 3)] = _)
  obtain ⟨session, events, started⟩ := @Session.start_runs Float _ _
    #[.positive, .negative, .positive, .negative]
    { Settings.standard with order := .supplied #[2, 0, 3, 1] }
    constructed rfl (by decide) (by decide +kernel)
  obtain ⟨_, _, _, _, _, fits⟩ := Session.start_fits constructed started
  obtain ⟨current, ran, fits, _⟩ :=
    Session.run_runs fits [.factorize #[2, 1, -3, 1, 2, 1, -3]]
  obtain ⟨next, response, responded, _⟩ := Session.respond_runs fits
    (.query (.solvePair #[1, 2, 3, 4] #[1] #[0, 0, 0, 0] #[]))
  have ended : (call current (.query (.solvePair #[1, 2, 3, 4] #[1]
      #[0, 0, 0, 0] #[]))).outcome = .ok response.verdict := by
    rw [outcome, responded]
    rfl
  refine ⟨session, events, started, current, ran, _, ended, ?_⟩
  exact dimension_truthful _
    ⟨_, _, _, session, events, _, constructed, started, ran⟩ ended

/-- It is not true that the two sizes always differ. Here the rows fit and are
named, and it is the columns that are too few. -/
theorem gather_blames_fitting_size :
    ¬ ∀ (operation : Operation Float) (result : Except (Error Float) Unit)
      (quantity : Quantity) (expected actual : Nat), operation.Reached →
      operation.outcome = .ok result →
      result = .error (.dimension quantity expected actual) →
      expected ≠ actual := by
  intro claim
  have ended : (gather ⟨2, ⟨#[0, 1, 2], #[0, 1]⟩⟩
      ⟨2, 1, .byColumn, #[[]]⟩ : Operation Float).outcome =
        .ok (.error (.dimension .gatheredMatrix 2 2)) := by
    rfl
  exact claim (gather ⟨2, ⟨#[0, 1, 2], #[0, 1]⟩⟩ ⟨2, 1, .byColumn, #[[]]⟩)
    _ .gatheredMatrix 2 2 trivial ended rfl rfl

end Operation

end QuasiDefinite
