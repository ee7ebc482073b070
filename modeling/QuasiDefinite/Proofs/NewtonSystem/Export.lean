import QuasiDefinite.Proofs.Machine.Sums
import QuasiDefinite.Proofs.NewtonSystem.Updates
import QuasiDefinite.Proofs.Pattern.Values
import QuasiDefinite.Proofs.Session.Calls

namespace QuasiDefinite

variable {α : Type}

/-- Arithmetic in which adding to zero may change the sign of a zero, and
nothing else. -/
class NeutralZero (α : Type) [Scalar α] : Prop where
  zero_add : ∀ x : α, Scalar.isZero x = false → 0 + x = x
  isZero_zero_add : ∀ x : α, Scalar.isZero x = true →
    Scalar.isZero (0 + x) = true
  isFinite_of_isZero : ∀ x : α, Scalar.isZero x = true →
    Scalar.isFinite x = true

instance : NeutralZero Float where
  zero_add x nonzero := by
    rw [Machine.zero_add_eq, if_neg (ne_true_of_eq_false nonzero)]
  isZero_zero_add x isZero := by
    rw [Machine.zero_add_eq, if_pos isZero]
    exact (Machine.isZero_iff 0).mpr ⟨.positive, rfl⟩
  isFinite_of_isZero _ := Machine.isFinite_of_isZero

instance {K : Type} [ExactField K] : NeutralZero K where
  zero_add x _ := zero_add x
  isZero_zero_add x isZero := (zero_add x).symm ▸ isZero
  isFinite_of_isZero _ _ := rfl

variable [Scalar α]

/-- The same numbers; the sign of a zero does not count. -/
def SameNumbers (left right : Array α) : Prop :=
  left.size = right.size ∧ ∀ (k : Nat) (value other : α),
    left[k]? = some value → right[k]? = some other →
      value = other ∨
        Scalar.isZero value = true ∧ Scalar.isZero other = true

theorem isFinite_zero_add [NeutralZero α] (x : α) :
    Scalar.isFinite (0 + x) = Scalar.isFinite x := by
  cases isZero : Scalar.isZero x with
  | false => rw [NeutralZero.zero_add x isZero]
  | true =>
      rw [NeutralZero.isFinite_of_isZero x isZero]
      exact NeutralZero.isFinite_of_isZero _
        (NeutralZero.isZero_zero_add x isZero)

theorem sameNumbers_zero_add [NeutralZero α] (values : Array α) :
    SameNumbers (values.map (0 + ·)) values := by
  refine ⟨Array.size_map, fun k value other found found' => ?_⟩
  rw [Array.getElem?_map, found', Option.map_some, Option.some.injEq] at found
  subst found
  cases isZero : Scalar.isZero other with
  | false => exact .inl (NeutralZero.zero_add other isZero)
  | true => exact .inr ⟨NeutralZero.isZero_zero_add other isZero, rfl⟩

theorem Factor.rejected_zero_add [NeutralZero α] (settings : Settings α)
    (values : Array α) :
    rejected settings (values.map (0 + ·)) = none ↔
      rejected settings values = none := by
  rw [rejected, rejected]
  split
  · simp [Array.findIdx?_eq_none_iff, isFinite_zero_add]
  · exact Iff.rfl

namespace Session

variable {session : Session α} {pattern : Pattern} {signs : Array Sign}

theorem succeeds_iff (fits : session.Fits pattern signs)
    (values : Array α) :
    ∃ reply, session.factorize values = .ok reply ∧
      ((∃ summary, reply.result = .ok summary) ↔
        values.size = session.plan.matrixCount ∧
          Factor.rejected session.settings values = none) := by
  obtain ⟨reply, counters, ran, counted, _⟩ := factorize_runs fits values
  refine ⟨_, counted, ?_⟩
  constructor
  · intro succeeded
    obtain ⟨summary, succeeded⟩ := succeeded
    exact Factor.accepted_of_factorize ran succeeded
  · intro accepted
    obtain ⟨new, _, ran', _⟩ := Factor.factorize_runs fits.regular
      fits.factor accepted.1 accepted.2
    cases ran.symm.trans ran'
    exact ⟨_, rfl⟩

end Session

namespace NewtonSystem

/-- The pattern and the values are read back from the matrix. -/
structure ReadsBack (pattern : Pattern) (values : Array α)
    (matrix : Sparse α) : Prop where
  pattern_eq : Pattern.ofMatrix matrix = .ok pattern
  gathered : ∃ values', pattern.gather matrix = .ok values' ∧
    SameNumbers values' values

variable {pattern : Pattern} {values : Array α} {matrix : Sparse α}

theorem readsBack_of_renders [NeutralZero α] (wellFormed : pattern.WellFormed)
    (size_values : values.size = pattern.slotCount)
    (renders : pattern.Renders values matrix) :
    ReadsBack pattern values matrix := by
  have carries := renders.carries wellFormed size_values
  exact ⟨carries.ofMatrix_eq size_values wellFormed, _,
    carries.gather_eq size_values wellFormed, sameNumbers_zero_add values⟩

theorem factorizeMatrix_eq {session : Session α}
    (renders : session.pattern.Renders values matrix)
    (size_values : values.size = session.pattern.slotCount)
    (wellFormed : session.pattern.WellFormed) :
    session.factorizeMatrix matrix =
      session.factorize (values.map (0 + ·)) := by
  have carries := renders.carries wellFormed size_values
  rw [Session.factorizeMatrix, carries.gather_eq size_values wellFormed]

theorem Tracks.toMatrix_runs {system : NewtonSystem α} {blocks : Blocks α}
    {data : Data α} (tracks : system.Tracks blocks data) :
    ∃ matrix, system.toMatrix = .ok matrix ∧
      system.pattern.Renders system.values matrix :=
  Pattern.toMatrix_runs tracks.wellFormed tracks.shows.size_values

/-- Both are factored, or both are refused. -/
def SucceedAlike (session : Session α) (matrix : Sparse α)
    (values : Array α) : Prop :=
  ∃ reply reply', session.factorizeMatrix matrix = .ok reply ∧
    session.factorize values = .ok reply' ∧
    ((∃ summary, reply.result = .ok summary) ↔
      ∃ summary, reply'.result = .ok summary)

theorem succeedAlike_of_renders [NeutralZero α] {session : Session α}
    {signs : Array Sign} (constructed : pattern.Constructed)
    (pattern_eq : session.pattern = pattern)
    (fits : session.Fits pattern signs)
    (size_values : values.size = pattern.slotCount)
    (renders : pattern.Renders values matrix) :
    SucceedAlike session matrix values := by
  subst pattern_eq
  have same := factorizeMatrix_eq renders size_values
    (Pattern.wellFormed_of_constructed constructed)
  obtain ⟨reply, ran, succeeds⟩ :=
    Session.succeeds_iff fits (values.map (0 + ·))
  obtain ⟨reply', ran', succeeds'⟩ := Session.succeeds_iff fits values
  refine ⟨reply, reply', same.trans ran, ran', succeeds.trans ?_⟩
  rw [succeeds', Array.size_map, Factor.rejected_zero_add]

/-- A pattern with values is read back from any matrix that renders it, as an
upper triangle or in full, and such matrices can be made in either storage. A
system can be written so at every stage of its updates; a session factors what
renders the system when it factors the values, and in exact arithmetic with the
same reply and to the same state. -/
theorem export_import :
    (∀ (α : Type) [Scalar α] [NeutralZero α] (pattern : Pattern)
      (values : Array α), pattern.Constructed →
      values.size = pattern.slotCount →
        (∀ matrix, pattern.Renders values matrix →
          ReadsBack pattern values matrix) ∧
        ∀ storage,
          (∃ upper, Sparse.ofUpperTriplets storage pattern.size
              (pattern.upperTriplets values) = .ok upper ∧
            upper.entries.Perm (pattern.upperTriplets values) ∧
            ReadsBack pattern values upper) ∧
          ∃ full, Sparse.ofTriplets storage pattern.size pattern.size
              (pattern.fullTriplets values) = .ok full ∧
            full.entries.Perm (pattern.fullTriplets values) ∧
            ReadsBack pattern values full) ∧
    (∀ (α : Type) [Scalar α] [NeutralZero α] (layout : Layout)
      (blocks : Blocks α) (system : NewtonSystem α) (events : List (Event α)),
      blocks.WellFormed → assemble layout blocks = .ok (system, events) →
      ∀ updates final accepted,
        system.afterUpdates updates = (final, accepted) →
        (∃ matrix, final.toMatrix = .ok matrix ∧
          final.pattern.Renders final.values matrix) ∧
        ∀ matrix, final.pattern.Renders final.values matrix →
          ReadsBack final.pattern final.values matrix ∧
          ∀ signs settings session events',
            Session.start final.pattern signs settings =
              .ok (.ok (session, events')) →
            ∀ calls, ∃ before, session.run calls = .ok before ∧
              SucceedAlike before matrix final.values) ∧
    ∀ (K : Type) [ExactField K] (layout : Layout) (blocks : Blocks K)
      (system : NewtonSystem K) (events : List (Event K)),
      blocks.WellFormed → assemble layout blocks = .ok (system, events) →
      ∀ updates final accepted,
        system.afterUpdates updates = (final, accepted) →
        ∀ matrix, final.pattern.Renders final.values matrix →
          ∀ session : Session K, session.pattern = final.pattern →
            session.factorizeMatrix matrix =
              session.factorize final.values := by
  refine ⟨?_, ?_, ?_⟩
  · intro α _ _ pattern values constructed size_values
    have wellFormed := Pattern.wellFormed_of_constructed constructed
    have back (matrix) (renders : pattern.Renders values matrix) :
        ReadsBack pattern values matrix :=
      readsBack_of_renders wellFormed size_values renders
    refine ⟨back, ?_⟩
    intro storage
    obtain ⟨upper, ran, perm, renders⟩ :=
      Pattern.ofUpperTriplets_runs wellFormed size_values storage
    obtain ⟨full, ran', perm', renders'⟩ :=
      Pattern.ofTriplets_runs wellFormed size_values storage
    exact ⟨⟨upper, ran, perm, back upper renders⟩, full, ran', perm',
      back full renders'⟩
  · intro α _ _ layout blocks system events initial assembled updates final
      accepted after
    obtain ⟨_, follows⟩ := follows_of_assemble initial assembled updates
    rw [after] at follows
    have tracks := follows.tracks
    refine ⟨tracks.toMatrix_runs, ?_⟩
    intro matrix renders
    refine ⟨readsBack_of_renders tracks.wellFormed tracks.shows.size_values
      renders, ?_⟩
    intro signs settings session events' started calls
    obtain ⟨_, _, pattern_eq, _, _, fits⟩ :=
      Session.start_fits tracks.constructed started
    obtain ⟨before, ran, fits', keeps⟩ := Session.run_runs fits calls
    exact ⟨before, ran, succeedAlike_of_renders tracks.constructed
      (keeps.pattern.trans pattern_eq) fits' tracks.shows.size_values renders⟩
  · intro K _ layout blocks system events initial assembled updates final
      accepted after matrix renders session same
    obtain ⟨_, follows⟩ := follows_of_assemble initial assembled updates
    rw [after] at follows
    have tracks := follows.tracks
    rw [← same] at renders
    rw [factorizeMatrix_eq renders (same ▸ tracks.shows.size_values)
      (same ▸ tracks.wellFormed)]
    simp only [zero_add, Array.map_id']

/-- A pattern with a zero that loses its sign, by row, and the sample after its
updates. -/
theorem export_import_sample :
    (∃ full, Sparse.ofTriplets .byRow 2 2
        (Pattern.fullTriplets ⟨2, ⟨#[0, 1, 3], #[0, 0, 1]⟩⟩
          #[2, -0.0, 1.5]) = .ok full ∧
      ReadsBack ⟨2, ⟨#[0, 1, 3], #[0, 0, 1]⟩⟩ #[2, -0.0, 1.5] full) ∧
    ∃ system events final accepted,
      assemble ⟨2, 1, 1⟩ sampleBlocks = .ok (system, events) ∧
      system.afterUpdates sampleUpdates = (final, accepted) ∧
      ∃ matrix, final.toMatrix = .ok matrix ∧
        ∃ session events', Session.start final.pattern final.signs
            ⟨.natural, 0, 0, 1 / 100, 1, true, 0, 3⟩ =
              .ok (.ok (session, events')) ∧
          SucceedAlike session matrix final.values ∧
          session.factorizeMatrix matrix =
            session.factorize final.values := by
  constructor
  · have constructed : Pattern.Constructed ⟨2, ⟨#[0, 1, 3], #[0, 0, 1]⟩⟩ :=
      .upper (by cbv : Pattern.ofUpperEntries 2 [(0, 1)] = _)
    obtain ⟨_, stored⟩ := export_import.1 Float
      ⟨2, ⟨#[0, 1, 3], #[0, 0, 1]⟩⟩ #[2, -0.0, 1.5] constructed rfl
    obtain ⟨_, full, ran, _, back⟩ := stored .byRow
    exact ⟨full, ran, back⟩
  · obtain ⟨system, events, ran, _⟩ :=
      assemble_runs wellFormed_sampleBlocks shaped_sampleBlocks
    obtain ⟨_, follows⟩ :=
      follows_of_assemble wellFormed_sampleBlocks ran sampleUpdates
    obtain ⟨⟨final, accepted⟩, updated⟩ :
        ∃ state, system.afterUpdates sampleUpdates = state := ⟨_, rfl⟩
    rw [updated] at follows
    have tracks := follows.tracks
    obtain ⟨⟨matrix, made, renders⟩, alike⟩ := export_import.2.1 ℚ ⟨2, 1, 1⟩
      sampleBlocks system events wellFormed_sampleBlocks ran sampleUpdates
      final accepted updated
    obtain ⟨session, events', started⟩ := @Session.start_runs ℚ _ _
      final.signs ⟨.natural, 0, 0, 1 / 100, 1, true, 0, 3⟩ tracks.constructed
      (by rw [signs, Layout.size_signs, tracks.size_pattern])
      (by rw [OrderRule.listing, Array.toList_range])
      (by decide +kernel)
    obtain ⟨_, plan, _, rfl, _⟩ := Session.start_eq_ok started
    obtain ⟨before, unchanged, succeed⟩ :=
      (alike matrix renders).2 _ _ _ _ started []
    cases unchanged
    exact ⟨system, events, final, accepted, ran, updated, matrix, made, _, _,
      started, succeed, export_import.2.2 ℚ ⟨2, 1, 1⟩ sampleBlocks system
        events wellFormed_sampleBlocks ran sampleUpdates final accepted updated
        matrix renders _ rfl⟩

end NewtonSystem

end QuasiDefinite
