import QuasiDefinite.Proofs.Horizon.Cost
import QuasiDefinite.Proofs.Horizon.Dynamics
import QuasiDefinite.Proofs.Session.Factored

namespace QuasiDefinite

open Matrix

variable {K : Type} [ExactField K] {settings : Settings K}

/-- The symmetric matrix of a system that shows the data. -/
def Data.matrix (data : Data K) (layout : Layout) :
    Matrix (Fin layout.size) (Fin layout.size) K :=
  Matrix.of fun i k =>
    data.entry layout (min i.val k.val) (max i.val k.val)

namespace NewtonSystem

/-- A session can be set up for the system, and whatever it was used for before,
the system is then solved as it is. -/
def SolvedUnshifted (system : NewtonSystem K) (settings : Settings K)
    {size : Nat} (A : Matrix (Fin size) (Fin size) K) : Prop :=
  ∃ session events, Session.start system.pattern system.signs settings =
      .ok (.ok (session, events)) ∧
    ∀ calls, ∃ before, session.run calls = .ok before ∧
      before.SolvesUnshifted system.values A

theorem Tracks.solvedUnshifted {system : NewtonSystem K} {blocks : Blocks K}
    {data : Data K} (tracks : system.Tracks blocks data)
    (definite : data.Definite system.layout)
    (validated : settings.validate = .ok ()) (unshifted : settings.Unshifted) :
    system.SolvedUnshifted settings (data.matrix system.layout) := by
  have signs_size : system.signs.size = system.pattern.size := by
    rw [signs, Layout.size_signs, tracks.size_pattern]
  have perm : (settings.order.listing system.pattern).toList.Perm
      (List.range system.pattern.size) := by
    rw [unshifted.natural, OrderRule.listing, Array.toList_range]
  obtain ⟨session, events, started⟩ :=
    Session.start_runs tracks.constructed signs_size perm validated
  refine ⟨session, events, started, fun calls => ?_⟩
  obtain ⟨before, ran, solves⟩ := Session.solvesUnshifted_of_saddlePoint
    tracks.constructed started unshifted tracks.shows.size_values
    (tracks.saddlePoint definite) calls
  have dense : system.pattern.dense system.values = Matrix.of fun i k =>
      data.entry system.layout (min i.val k.val) (max i.val k.val) := by
    ext i k
    exact tracks.dense_apply i k
  rw [dense] at solves
  refine ⟨before, ran, ?_⟩
  rw [Data.matrix]
  exact tracks.size_pattern ▸ solves

end NewtonSystem

namespace Horizon

variable {horizon : Horizon} {model : Model K} {data : Data K}

theorem HasBlocks.definite (has : horizon.HasBlocks model data.blocks)
    (inRange : model.CostsInRange horizon)
    (barrier : ∀ value ∈ data.barrier, 0 < value) :
    data.Definite horizon.layout where
  cost := costMatrix_definite has inRange
  barrier := barrier
  rank := rank_equalityMatrix has

end Horizon

namespace NewtonSystem

/-- Without any shift and in the natural order the system of a strictly convex
problem is solved as it is, whatever its inequalities. So is that of a control
problem, whatever its dimensions, the costs drawn for it, its dynamics and the
positive barriers that it is updated with. -/
theorem definite_solvesUnshifted (validated : settings.validate = .ok ())
    (unshifted : settings.Unshifted) :
    (∀ (layout : Layout) (blocks : Blocks K) (system : NewtonSystem K)
      (events : List (Event K)), blocks.WellFormed →
      assemble layout blocks = .ok (system, events) →
      ∀ updates final accepted,
        system.afterUpdates updates = (final, accepted) →
        (Data.latest layout blocks accepted).Definite layout →
        final.SolvedUnshifted settings
          ((Data.latest layout blocks accepted).matrix layout)) ∧
    ∀ (horizon : Horizon) (model : Horizon.Model K),
      model.CostsInRange horizon →
      ∃ blocks system events, horizon.blocks model = .ok blocks ∧
        assemble horizon.layout blocks = .ok (system, events) ∧
        ∀ updates, (∀ update ∈ updates, update.Positive) →
          ∀ final accepted, system.afterUpdates updates = (final, accepted) →
            final.SolvedUnshifted settings
              ((Data.latest horizon.layout blocks accepted).matrix
                horizon.layout) := by
  have solved (layout : Layout) (blocks : Blocks K) (system : NewtonSystem K)
      (events : List (Event K)) (wellFormed : blocks.WellFormed)
      (ran : assemble layout blocks = .ok (system, events))
      (updates : List (Update K)) (final : NewtonSystem K)
      (accepted : List (Update K))
      (after : system.afterUpdates updates = (final, accepted))
      (definite : (Data.latest layout blocks accepted).Definite layout) :
      final.SolvedUnshifted settings
        ((Data.latest layout blocks accepted).matrix layout) := by
    obtain ⟨rfl, follows⟩ := follows_of_assemble wellFormed ran updates
    rw [after] at follows
    have tracks := follows.tracks
    rw [← follows.layout_eq] at definite tracks ⊢
    exact tracks.solvedUnshifted definite validated unshifted
  refine ⟨solved, fun horizon model inRange => ?_⟩
  obtain ⟨blocks, built, has⟩ := horizon.blocks_runs model
  obtain ⟨system, events, ran, _⟩ := assemble_runs has.wellFormed has.shaped
  refine ⟨blocks, system, events, built, ran, fun updates positive final
    accepted after => ?_⟩
  obtain ⟨_, follows⟩ := follows_of_assemble has.wellFormed ran updates
  have listed : accepted = updates.filter _ :=
    (congrArg Prod.snd after).symm.trans follows.accepted_eq
  obtain ⟨same, barrier⟩ :
      (Data.latest horizon.layout blocks accepted).blocks = blocks ∧ _ :=
    Data.latest_of_positive fun update member =>
      positive update (List.mem_of_mem_filter (listed ▸ member))
  refine solved _ _ _ _ has.wellFormed ran updates final accepted after ?_
  rw [← same] at has
  exact has.definite inRange barrier

theorem definite_sampleData : sampleData.Definite ⟨2, 1, 1⟩ where
  cost x nonzero := by
    refine lt_of_lt_of_eq ?_ (quadratic_sampleData x).symm
    by_cases first : x 0 = 0
    · have second : x 1 ≠ 0 := fun zero =>
        nonzero (funext (Fin.forall_fin_two.mpr ⟨first, zero⟩))
      rw [first, zero_div, zero_add]
      positivity
    · positivity
  barrier := by decide +kernel
  rank := by
    rw [linearIndependent_unique_iff]
    intro zero
    have first : sampleData.equalityMatrix ⟨2, 1, 1⟩ 0 0 = 5 := by
      decide +kernel
    have entry : sampleData.equalityMatrix ⟨2, 1, 1⟩ 0 0 = 0 :=
      congrFun zero 0
    rw [first] at entry
    norm_num at entry

def sampleModel : Horizon.Model ℚ where
  stateCost _ _ := 2
  coupling _ _ := 1 / 4
  inputCost _ _ := 1 / 2
  drift i j := if i = j then 11 / 10 else 1 / 20
  gain _ _ := -1

def sampleBarrier : Update ℚ :=
  .barrier #[1, 2] #[3, 1 / 2]

theorem costsInRange_sampleModel (horizon : Horizon) :
    sampleModel.CostsInRange horizon where
  state _ _ _ _ := by norm_num [sampleModel]
  coupling _ _ _ _ := by norm_num [sampleModel]
  input _ _ _ _ := by norm_num [sampleModel]

theorem definite_solvesUnshifted_sample :
    (∃ system events final accepted,
      assemble ⟨2, 1, 1⟩ sampleBlocks = .ok (system, events) ∧
        system.afterUpdates sampleUpdates = (final, accepted) ∧
        final.SolvedUnshifted ⟨.natural, 0, 0, 1 / 100, 1, true, 0, 3⟩
          (sampleData.matrix ⟨2, 1, 1⟩)) ∧
    ∃ blocks system events final,
      Horizon.blocks ⟨1, 2, 1⟩ sampleModel = .ok blocks ∧
        assemble (Horizon.layout ⟨1, 2, 1⟩) blocks = .ok (system, events) ∧
        system.afterUpdates [sampleBarrier] = (final, [sampleBarrier]) ∧
        final.SolvedUnshifted ⟨.natural, 0, 0, 1 / 100, 1, true, 0, 3⟩
          ((Data.latest (Horizon.layout ⟨1, 2, 1⟩) blocks
            [sampleBarrier]).matrix (Horizon.layout ⟨1, 2, 1⟩)) := by
  have law := @definite_solvesUnshifted ℚ _
    ⟨.natural, 0, 0, 1 / 100, 1, true, 0, 3⟩ (by decide +kernel) ⟨rfl, rfl, rfl⟩
  constructor
  · obtain ⟨system, events, ran, _⟩ :=
      assemble_runs wellFormed_sampleBlocks shaped_sampleBlocks
    obtain ⟨layout_eq, follows⟩ :=
      follows_of_assemble wellFormed_sampleBlocks ran sampleUpdates
    obtain ⟨⟨final, accepted⟩, updated⟩ :
        ∃ state, system.afterUpdates sampleUpdates = state := ⟨_, rfl⟩
    rw [updated] at follows
    have definite := definite_sampleData
    have latest : sampleData = .latest ⟨2, 1, 1⟩ sampleBlocks accepted := by
      rw [sampleData, ← layout_eq, ← follows.accepted_eq, layout_eq]
    rw [latest] at definite
    refine ⟨system, events, final, accepted, ran, updated, ?_⟩
    rw [latest]
    exact law.1 ⟨2, 1, 1⟩ sampleBlocks system events wellFormed_sampleBlocks ran
      sampleUpdates final accepted updated definite
  · obtain ⟨blocks, system, events, built, ran, solved⟩ :=
      law.2 ⟨1, 2, 1⟩ sampleModel (costsInRange_sampleModel _)
    obtain ⟨_, built', has⟩ := Horizon.blocks_runs ⟨1, 2, 1⟩ sampleModel
    cases built.symm.trans built'
    obtain ⟨layout_eq, follows⟩ :=
      follows_of_assemble has.wellFormed ran [sampleBarrier]
    have accepted : (system.afterUpdates [sampleBarrier]).2 =
        [sampleBarrier] := by
      rw [follows.accepted_eq, layout_eq]
      rfl
    refine ⟨blocks, system, events, _, built, ran, Prod.ext rfl accepted,
      solved [sampleBarrier] ?_ _ _ (Prod.ext rfl accepted)⟩
    intro update member
    cases List.mem_singleton.mp member
    exact ⟨by decide +kernel, by decide +kernel⟩

end NewtonSystem

end QuasiDefinite
