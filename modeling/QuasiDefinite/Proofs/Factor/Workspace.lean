import QuasiDefinite.Proofs.Factor.Answers

namespace QuasiDefinite

variable {α : Type}

/-- A reply without the workspace, but with what was written elsewhere. -/
def Reply.told {σ τ β : Type} (reply : Reply α (σ × τ) β) : Reply α τ β :=
  reply.mapState Prod.snd

def Reply.bare {σ β : Type} (reply : Reply α σ β) : Reply α Unit β :=
  reply.mapState fun _ => ()

namespace Factor

variable {plan : Plan} {factor : Factor α} {space space' : Workspace α}
  {size : Nat} {rhs x target : Array α}

theorem checkResidualLengths_congr_space (fits : space.Fits size)
    (fits' : space'.Fits size) :
    checkResidualLengths plan space' rhs x =
      checkResidualLengths plan space rhs x := by
  rw [checkResidualLengths, checkResidualLengths, Workspace.size,
    Workspace.size, fits.work_size, fits'.work_size]

variable [Scalar α]

theorem solve_congr_space (fits : space.Fits size) (fits' : space'.Fits size) :
    Reply.told <$> solve plan factor space' rhs target =
      Reply.told <$> solve plan factor space rhs target := by
  rw [solve, solve, Workspace.size, Workspace.size, fits.work_size,
    fits'.work_size]
  cases checkLengths (α := α) [(.solveRhs, plan.size, rhs.size),
      (.solveOutput, plan.size, target.size),
      (.solveWorkspace, plan.size, size)] with
  | error error => rfl
  | ok =>
      simp only [map_bind, map_pure]
      rfl

/-- The residual is that of the solution held, and written over a vector of
which only the size matters. -/
theorem residual_congr_space (space space' : Workspace α)
    (solution : space'.solution = space.solution)
    (sizes : space'.residual.size = space.residual.size) :
    residual plan factor rhs space' =
      (fun (value, new) =>
        (value, { space' with residual := new.residual })) <$>
        residual plan factor rhs space := by
  rw [residual, residual, symmetricProduct_target, solution, sizes,
    ← symmetricProduct_target]
  simp only [map_bind, map_pure]

theorem residualNormSq_congr_space (fits : space.Fits size)
    (fits' : space'.Fits size) :
    Reply.bare <$> residualNormSq plan factor space' rhs x =
      Reply.bare <$> residualNormSq plan factor space rhs x := by
  rw [residualNormSq, residualNormSq,
    checkResidualLengths_congr_space fits fits']
  cases checkResidualLengths plan space rhs x with
  | error error => rfl
  | ok =>
      simp only [map_bind, map_pure]
      refine bind_congr fun solution => ?_
      rw [residual_congr_space { space with solution }
        { space' with solution } rfl
        (fits'.residual_size.trans fits.residual_size.symm), bind_map_left]
      rfl

def Refining.told (state : Refining α) : Array α × Nat × α :=
  (state.space.solution, state.steps, state.norm)

/-- A step writes the solution it starts from over the work vector before it
reads it. -/
theorem refineSteps_congr_work (tolerance : α) (limit : Nat)
    (state : Refining α) (work : Array α) :
    Refining.told <$> refineSteps plan factor rhs tolerance limit
        { state with space := { state.space with work } } =
      Refining.told <$> refineSteps plan factor rhs tolerance limit state := by
  cases limit with
  | zero => rfl
  | succ limit =>
      rw [refineSteps, refineSteps]
      dsimp only
      split <;> rfl

theorem refine_congr_space (fits : space.Fits size) (fits' : space'.Fits size)
    (tolerance : α) (limit : Nat) :
    Reply.told <$> refine plan factor space' rhs x tolerance limit =
      Reply.told <$> refine plan factor space rhs x tolerance limit := by
  rw [refine, refine, checkResidualLengths_congr_space fits fits']
  cases checkResidualLengths plan space rhs x with
  | error error => rfl
  | ok =>
      simp only [map_bind, map_pure]
      refine bind_congr fun solution => ?_
      rw [residual_congr_space { space with solution }
        { space' with solution } rfl
        (fits'.residual_size.trans fits.residual_size.symm),
        residual_congr_space { space with solution } { space with solution }
          rfl rfl]
      simp only [bind_map_left]
      refine bind_congr fun measured => ?_
      obtain ⟨value, new⟩ := measured
      refine Checked.bind_congr_of_map
        (refineSteps_congr_work tolerance limit
          ⟨{ space with solution, residual := new.residual }, 0,
            Scalar.sqrt value⟩ space'.work) ?_
      intro state' state same
      obtain ⟨⟨_, _, _⟩, _, _⟩ := state
      obtain ⟨⟨_, _, _⟩, _, _⟩ := state'
      cases same
      rfl

theorem defectNormSq_congr_space (fits : space.Fits size)
    (fits' : space'.Fits size) :
    Prod.fst <$> defectNormSq plan factor space' =
      Prod.fst <$> defectNormSq plan factor space := by
  rw [defectNormSq, defectNormSq, Array.map_const', Array.map_const',
    fits.work_size, fits'.work_size]
  simp only [map_bind, map_pure]

end Factor

end QuasiDefinite
