import QuasiDefinite.Proofs.Exact.Field
import QuasiDefinite.Proofs.Pattern.Collect
import QuasiDefinite.Proofs.Session.Calls

namespace QuasiDefinite.Session

variable {α : Type} [Scalar α]

/-- The matrix is refused for one of its entries on or above the diagonal that
has no slot, and the session is left as it was. -/
def RefusesForeign (session : Session α) (matrix : Sparse α) : Prop :=
  ∃ row col, (row, col) ∈ matrix.coordinates ∧ row ≤ col ∧
    session.pattern.slot? row col = none ∧
    session.pattern.gather matrix =
      .error (.configuration (.foreignEntry row col)) ∧
    session.factorizeMatrix matrix =
      .ok (.refuse session (.configuration (.foreignEntry row col)))

variable {session : Session α} {matrix : Sparse α}

theorem factorizeMatrix_of_error {error : Error α}
    (refused : session.pattern.gather matrix = .error error) :
    session.factorizeMatrix matrix = .ok (.refuse session error) := by
  rw [factorizeMatrix, refused]

theorem factorizeMatrix_of_ok {values : Array α}
    (gathered : session.pattern.gather matrix = .ok values) :
    session.factorizeMatrix matrix = session.factorize values := by
  rw [factorizeMatrix, gathered]

theorem refusesForeign_of_foreign (rows_eq : matrix.rows = session.pattern.size)
    (cols_eq : matrix.cols = session.pattern.size) {row col : Nat}
    (upper : row ≤ col) (member : (row, col) ∈ matrix.coordinates)
    (absent : session.pattern.slot? row col = none) :
    session.RefusesForeign matrix := by
  cases gathered : session.pattern.gather matrix with
  | ok values =>
      have collects := (Pattern.gather_eq_ok_iff rows_eq cols_eq).mp gathered
      obtain ⟨slot, found⟩ := collects.covers row col upper member
      rw [absent] at found
      cases found
  | error error =>
      obtain ⟨before, row, col, value, after, split, ⟨upper, absent⟩, rfl, _⟩ :=
        (Pattern.gather_eq_error_iff rows_eq cols_eq).mp gathered
      refine ⟨row, col, Pattern.mem_coordinates_iff.mpr ⟨value, ?_⟩, upper,
        absent, gathered, factorizeMatrix_of_error gathered⟩
      simp [split]

theorem gather_runs_of_covered (rows_eq : matrix.rows = session.pattern.size)
    (cols_eq : matrix.cols = session.pattern.size)
    (covered : ∀ row col, (row, col) ∈ matrix.coordinates → row ≤ col →
      session.pattern.slot? row col ≠ none) :
    ∃ values, session.pattern.gather matrix = .ok values := by
  cases gathered : session.pattern.gather matrix with
  | ok values => exact ⟨values, rfl⟩
  | error error =>
      obtain ⟨before, row, col, value, after, split, ⟨upper, absent⟩, _⟩ :=
        (Pattern.gather_eq_error_iff rows_eq cols_eq).mp gathered
      have member : (row, col) ∈ matrix.coordinates :=
        Pattern.mem_coordinates_iff.mpr ⟨value, by simp [split]⟩
      exact absurd absent (covered row col member upper)

/-- A square matrix that stores an entry without a slot is refused, if the entry
lies on or above the diagonal or its mirror image is stored too; every other
square matrix is gathered. So if a matrix is factored, every such entry has a
slot, and it is factored by values that hold all entries on and above the
diagonal. -/
theorem factorizeMatrix_covers (session : Session α) (matrix : Sparse α)
    (rows_eq : matrix.rows = session.pattern.size)
    (cols_eq : matrix.cols = session.pattern.size) :
    (∀ row col, (row, col) ∈ matrix.coordinates →
      row ≤ col ∨ (col, row) ∈ matrix.coordinates →
      session.pattern.slot? row col = none → session.RefusesForeign matrix) ∧
    ((∀ row col, (row, col) ∈ matrix.coordinates →
      row ≤ col ∨ (col, row) ∈ matrix.coordinates →
      session.pattern.slot? row col ≠ none) →
        ∃ values, session.pattern.gather matrix = .ok values) ∧
    (∀ values, session.pattern.gather matrix = .ok values ↔
      session.pattern.Collects matrix values) ∧
    ∀ reply summary, session.factorizeMatrix matrix = .ok reply →
      reply.result = .ok summary →
      (∃ values, session.pattern.Collects matrix values ∧
        session.factorize values = .ok reply) ∧
      ∀ row col, (row, col) ∈ matrix.coordinates →
        row ≤ col ∨ (col, row) ∈ matrix.coordinates →
        ∃ slot, session.pattern.slot? row col = some slot := by
  have refuses : ∀ row col, (row, col) ∈ matrix.coordinates →
      row ≤ col ∨ (col, row) ∈ matrix.coordinates →
      session.pattern.slot? row col = none →
      session.RefusesForeign matrix := by
    intro row col member stored absent
    by_cases upper : row ≤ col
    · exact refusesForeign_of_foreign rows_eq cols_eq upper member absent
    · rw [Pattern.slot?_comm] at absent
      exact refusesForeign_of_foreign rows_eq cols_eq
        (Nat.le_of_not_le upper) (stored.resolve_left upper) absent
  refine ⟨refuses, fun covered => gather_runs_of_covered rows_eq cols_eq
    fun row col member upper => covered row col member (.inl upper),
    fun values => Pattern.gather_eq_ok_iff rows_eq cols_eq, ?_⟩
  intro reply summary ran succeeded
  cases gathered : session.pattern.gather matrix with
  | error error =>
      rw [factorizeMatrix_of_error gathered] at ran
      cases ran
      cases succeeded
  | ok values =>
      refine ⟨⟨values, (Pattern.gather_eq_ok_iff rows_eq cols_eq).mp gathered,
        (factorizeMatrix_of_ok gathered).symm.trans ran⟩, ?_⟩
      intro row col member stored
      by_contra absent
      obtain ⟨_, _, _, _, _, refused, _⟩ := refuses row col member stored
        (Option.eq_none_iff_forall_ne_some.mpr
          fun slot found => absent ⟨slot, found⟩)
      rw [gathered] at refused
      cases refused

/-- A pattern with one entry beside the diagonal, offered a matrix by row with a
foreign entry above the diagonal, and one whose two entries beside the diagonal
mirror each other. -/
theorem factorizeMatrix_covers_mirrored :
    ∃ (session : Session ℚ) (events : List (Event ℚ))
      (foreign mirrored : Sparse ℚ) (values : Array ℚ),
      start ⟨3, ⟨#[0, 1, 3, 4], #[0, 0, 1, 2]⟩⟩
        #[.positive, .positive, .positive]
        ⟨.natural, 0, 0, 1 / 100, 1, true, 0, 3⟩ =
          .ok (.ok (session, events)) ∧
      foreign = ⟨3, 3, .byRow, #[[(0, 2), (2, 7)], [(1, 2)], [(2, 1)]]⟩ ∧
      session.RefusesForeign foreign ∧
      mirrored =
        ⟨3, 3, .byRow, #[[(0, 2), (1, 1)], [(0, 1), (1, 2)], [(2, 1)]]⟩ ∧
      session.pattern.gather mirrored = .ok values ∧
      session.pattern.Collects mirrored values := by
  have constructed : Pattern.Constructed
      ⟨3, ⟨#[0, 1, 3, 4], #[0, 0, 1, 2]⟩⟩ :=
    .upper (by cbv : Pattern.ofUpperEntries 3 [(0, 1)] = _)
  obtain ⟨session, events, started⟩ := @start_runs ℚ _ _
    #[.positive, .positive, .positive]
    ⟨.natural, 0, 0, 1 / 100, 1, true, 0, 3⟩ constructed rfl
    (by decide) (by decide +kernel)
  obtain ⟨_, plan, _, rfl, _⟩ := start_eq_ok started
  have gathered : Pattern.gather ⟨3, ⟨#[0, 1, 3, 4], #[0, 0, 1, 2]⟩⟩
      (⟨3, 3, .byRow, #[[(0, 2), (1, 1)], [(0, 1), (1, 2)], [(2, 1)]]⟩ :
        Sparse ℚ) = .ok #[2, 1, 2, 1] := by
    decide +kernel
  have absent : Pattern.slot? ⟨3, ⟨#[0, 1, 3, 4], #[0, 0, 1, 2]⟩⟩ 0 2 =
      none := by
    decide
  refine ⟨_, events, _, _, _, started, rfl, ?_, rfl, gathered, ?_⟩
  · exact (factorizeMatrix_covers _ _ rfl rfl).1 0 2 (by decide)
      (.inl (by decide)) absent
  · exact ((factorizeMatrix_covers _ _ rfl rfl).2.2.1 _).mp gathered

/-- An entry below the diagonal that has no slot is not noticed: the matrix is
factored as if it were diagonal. -/
theorem factorizeMatrix_passes_over :
    ¬ ∀ (pattern : Pattern) (signs : Array Sign) (settings : Settings ℚ)
      (session : Session ℚ) (events : List (Event ℚ)) (matrix : Sparse ℚ)
      (row col : Nat), pattern.Constructed →
      start pattern signs settings = .ok (.ok (session, events)) →
      matrix.WellFormed → matrix.rows = pattern.size →
      matrix.cols = pattern.size → (row, col) ∈ matrix.coordinates →
      pattern.slot? row col = none →
      ∃ misfit, pattern.gather matrix = .error (.configuration misfit) := by
  intro claim
  have constructed : Pattern.Constructed ⟨2, ⟨#[0, 1, 2], #[0, 1]⟩⟩ :=
    .upper (by cbv : Pattern.ofUpperEntries 2 [] = _)
  obtain ⟨session, events, started⟩ := @start_runs ℚ _ _
    #[.positive, .positive] ⟨.natural, 0, 0, 1 / 100, 1, true, 0, 3⟩
    constructed rfl (by decide) (by decide +kernel)
  have wellFormed : Sparse.WellFormed
      (⟨2, 2, .byColumn, #[[(0, 2), (1, 5)], [(1, 3)]]⟩ : Sparse ℚ) := by
    constructor <;> decide
  obtain ⟨misfit, refused⟩ := claim _ _ _ session events
    ⟨2, 2, .byColumn, #[[(0, 2), (1, 5)], [(1, 3)]]⟩ 1 0 constructed started
    wellFormed rfl rfl (by decide) (by decide)
  have gathered : Pattern.gather ⟨2, ⟨#[0, 1, 2], #[0, 1]⟩⟩
      (⟨2, 2, .byColumn, #[[(0, 2), (1, 5)], [(1, 3)]]⟩ : Sparse ℚ) =
        .ok #[2, 3] := by
    decide +kernel
  cases refused.symm.trans gathered

end QuasiDefinite.Session
