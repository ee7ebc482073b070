import QuasiDefinite.Proofs.Factor.Answers
import QuasiDefinite.Proofs.Factor.History
import QuasiDefinite.Proofs.NewtonSystem.Updates
import QuasiDefinite.Proofs.Pattern.Collect

/-!
Sizes that are asked for. What an operation asks for is a list of demands, each
of them a size that was passed and the one that it should be. They are looked at
one after the other, and the first that is not met is named (`RefusesBy`).
-/

namespace QuasiDefinite

variable {α β : Type}

def verdict (result : Except (Error α) β) : Except (Error α) Unit :=
  result.map fun _ => ()

@[simp] theorem verdict_ok (value : β) :
    verdict (.ok value : Except (Error α) β) = .ok () :=
  rfl

@[simp] theorem verdict_error (error : Error α) :
    verdict (.error error : Except (Error α) β) = .error error :=
  rfl

theorem verdict_unit (result : Except (Error α) Unit) :
    verdict result = result := by
  cases result <;> rfl

theorem verdict_eq_error_iff {result : Except (Error α) β} {error : Error α} :
    verdict result = .error error ↔ result = .error error := by
  cases result <;> simp

/-! Demands: what a size belongs to, the size asked for and the size passed. -/

def solveDemands (size : Nat) (rhs target : Array α) :
    List (Quantity × Nat × Nat) :=
  [(.solveRhs, size, rhs.size), (.solveOutput, size, target.size)]

def residualDemands (size : Nat) (rhs x : Array α) :
    List (Quantity × Nat × Nat) :=
  [(.residualRhs, size, rhs.size), (.residualSolution, size, x.size)]

/-- Sizes are refused as the demands say, and for no other reason. -/
def RefusesBy (demands : List (Quantity × Nat × Nat))
    (result : Except (Error α) β) : Prop :=
  ∀ quantity expected actual,
    result = .error (.dimension quantity expected actual) ↔
      Factor.checkLengths demands =
        .error (.dimension quantity expected actual : Error α)

def RefusesNone (result : Except (Error α) β) : Prop :=
  ∀ quantity expected actual,
    result ≠ .error (.dimension quantity expected actual)

section Demands

open Factor (checkLengths)

variable {demands more : List (Quantity × Nat × Nat)}
  {result : Except (Error α) β} {γ ι : Type}

theorem refusesNone_ok (value : β) :
    RefusesNone (.ok value : Except (Error α) β) := by
  intro quantity expected actual refused
  cases refused

theorem refusesNone_configuration (misfit : Misfit α) :
    RefusesNone (.error (.configuration misfit) : Except (Error α) β) := by
  intro quantity expected actual refused
  cases refused

theorem RefusesNone.bind {next : β → Except (Error α) γ}
    (none : RefusesNone result) (later : ∀ value, RefusesNone (next value)) :
    RefusesNone (result >>= next) := by
  cases result with
  | error error =>
      intro quantity expected actual refused
      exact none quantity expected actual (Except.error.inj refused ▸ rfl)
  | ok value => exact later value

theorem RefusesNone.map (none : RefusesNone result) (look : β → γ) :
    RefusesNone (result.map look) := by
  cases result with
  | error error =>
      intro quantity expected actual refused
      exact none quantity expected actual (Except.error.inj refused ▸ rfl)
  | ok value => exact refusesNone_ok _

theorem refusesNone_mapM {run : ι → Except (Error α) γ}
    (none : ∀ item, RefusesNone (run item)) (items : List ι) :
    RefusesNone (items.mapM run) := by
  induction items with
  | nil => exact refusesNone_ok _
  | cons item rest ih =>
      rw [List.mapM_cons]
      exact (none item).bind fun _ => ih.bind fun _ => refusesNone_ok _

theorem refusesBy_of_check
    (refused : ∀ error, checkLengths demands = .error error →
      result = .error error)
    (passed : checkLengths (α := α) demands = .ok () → RefusesNone result) :
    RefusesBy demands result := by
  intro quantity expected actual
  cases checked : checkLengths (α := α) demands with
  | error error => rw [refused error checked, Except.error.injEq,
      Except.error.injEq]
  | ok =>
      exact iff_of_false (passed checked quantity expected actual)
        (refusesNone_ok () quantity expected actual)

theorem refusesBy_check : RefusesBy demands (checkLengths (α := α) demands) :=
  fun _ _ _ => Iff.rfl

theorem refusesBy_of_eq {result : Except (Error α) Unit}
    (same : result = checkLengths demands) : RefusesBy demands result :=
  same ▸ refusesBy_check

theorem refusesBy_verdict :
    RefusesBy demands (verdict result) ↔ RefusesBy demands result := by
  simp only [RefusesBy, verdict_eq_error_iff]

theorem RefusesNone.refusesBy_nil (none : RefusesNone result) :
    RefusesBy [] result :=
  refusesBy_of_check (fun _ => nofun) fun _ => none

theorem checkLengths_cons (demand : Quantity × Nat × Nat) :
    checkLengths (α := α) (demand :: demands) =
      checkLength demand.1 demand.2.1 demand.2.2 >>= fun _ =>
        checkLengths demands :=
  rfl

theorem checkLengths_singleton (demand : Quantity × Nat × Nat) :
    checkLengths (α := α) [demand] =
      checkLength demand.1 demand.2.1 demand.2.2 := by
  rw [checkLengths_cons]
  exact bind_pure _

theorem checkLengths_append : checkLengths (α := α) (demands ++ more) =
    checkLengths demands >>= fun _ => checkLengths more := by
  induction demands with
  | nil => rfl
  | cons demand rest ih =>
      rw [List.cons_append, checkLengths_cons, checkLengths_cons, ih,
        bind_assoc]

theorem checkLengths_append_of_ok (demands : List (Quantity × Nat × Nat))
    (met : checkLengths (α := α) more = .ok ()) :
    checkLengths (α := α) (demands ++ more) = checkLengths demands := by
  rw [checkLengths_append, met]
  exact bind_pure _

theorem RefusesBy.dimension (refuses : RefusesBy demands result)
    {quantity : Quantity} {expected actual : Nat}
    (refused : result = .error (.dimension quantity expected actual)) :
    (quantity, expected, actual) ∈ demands ∧ expected ≠ actual := by
  obtain ⟨_, _, _, member, differs, same⟩ := Factor.dimension_of_checkLengths
    ((refuses quantity expected actual).mp refused)
  cases same
  exact ⟨member, differs⟩

theorem RefusesBy.exists_iff (refuses : RefusesBy demands result) :
    (∃ quantity expected actual,
      result = .error (.dimension quantity expected actual)) ↔
    ∃ demand ∈ demands, demand.2.1 ≠ demand.2.2 := by
  constructor
  · rintro ⟨quantity, expected, actual, refused⟩
    obtain ⟨member, differs⟩ := refuses.dimension refused
    exact ⟨_, member, differs⟩
  · rintro ⟨demand, member, differs⟩
    cases checked : checkLengths (α := α) demands with
    | ok => exact absurd (Factor.checkLengths_eq_ok checked _ member) differs
    | error error =>
        obtain ⟨quantity, expected, actual, _, _, rfl⟩ :=
          Factor.dimension_of_checkLengths checked
        exact ⟨quantity, expected, actual, (refuses ..).mpr checked⟩

end Demands

/-! Factorizations and their answers. -/

theorem verdict_of_check {σ : Type} {run : Checked (Reply α σ β)}
    {check : Except (Error α) Unit}
    (refused : ∀ error, check = .error error →
      ∃ state, run = .ok (.refuse state error))
    (answered : check = .ok () → ∀ reply, run = .ok reply →
      ∃ value, reply.result = .ok value)
    {reply : Reply α σ β} (ran : run = .ok reply) :
    verdict reply.result = check := by
  cases checked : check with
  | error error =>
      obtain ⟨state, ran'⟩ := refused error checked
      cases ran'.symm.trans ran
      rfl
  | ok =>
      obtain ⟨value, succeeded⟩ := answered checked reply ran
      rw [succeeded, verdict_ok]

namespace Factor

variable [Scalar α] {plan : Plan} {factor : Factor α} {space : Workspace α}
  {rhs x target : Array α}

theorem verdict_solve {reply : Reply α (Workspace α × Array α) Unit}
    (ran : solve plan factor space rhs target = .ok reply) :
    verdict reply.result = checkLengths [(.solveRhs, plan.size, rhs.size),
      (.solveOutput, plan.size, target.size),
      (.solveWorkspace, plan.size, space.size)] := by
  refine verdict_of_check (fun error checked => ?_)
    (fun checked reply ran => ?_) ran
  · rw [solve, checked]
    exact ⟨_, rfl⟩
  · rw [solve, checked] at ran
    obtain ⟨moved, _, ran⟩ := Checked.bind_eq_ok_iff.mp ran
    obtain ⟨work, _, ran⟩ := Checked.bind_eq_ok_iff.mp ran
    obtain ⟨new, _, ran⟩ := Checked.bind_eq_ok_iff.mp ran
    cases ran
    exact ⟨(), rfl⟩

theorem verdict_residualNormSq {reply : Reply α (Workspace α) α}
    (ran : residualNormSq plan factor space rhs x = .ok reply) :
    verdict reply.result = checkResidualLengths plan space rhs x := by
  refine verdict_of_check (fun error checked => ?_)
    (fun checked reply ran => ?_) ran
  · rw [residualNormSq, checked]
    exact ⟨_, rfl⟩
  · rw [residualNormSq, checked] at ran
    obtain ⟨solution, _, ran⟩ := Checked.bind_eq_ok_iff.mp ran
    obtain ⟨measured, _, ran⟩ := Checked.bind_eq_ok_iff.mp ran
    cases ran
    exact ⟨_, rfl⟩

theorem verdict_refine {tolerance : α} {limit : Nat}
    {reply : Reply α (Workspace α × Array α) (Refinement α)}
    (ran : refine plan factor space rhs x tolerance limit = .ok reply) :
    verdict reply.result = checkResidualLengths plan space rhs x := by
  refine verdict_of_check (fun error checked => ?_)
    (fun checked reply ran => ?_) ran
  · rw [refine, checked]
    exact ⟨_, rfl⟩
  · rw [refine, checked] at ran
    obtain ⟨solution, _, ran⟩ := Checked.bind_eq_ok_iff.mp ran
    obtain ⟨measured, _, ran⟩ := Checked.bind_eq_ok_iff.mp ran
    obtain ⟨last, _, ran⟩ := Checked.bind_eq_ok_iff.mp ran
    obtain ⟨new, _, ran⟩ := Checked.bind_eq_ok_iff.mp ran
    cases ran
    exact ⟨_, rfl⟩

theorem refusesBy_factorize {settings : Settings α} {values : Array α}
    {reply : Reply α (Factor α) (Summary α)}
    (ran : factorize plan settings values factor = .ok reply) :
    RefusesBy [(.factorizeValues, plan.matrixCount, values.size)]
      reply.result := by
  by_cases same : plan.matrixCount = values.size
  · refine refusesBy_of_check (fun error checked => ?_) fun _ => ?_
    · rw [checkLengths_singleton, checkLength_eq_ok_iff.mpr same] at checked
      cases checked
    · intro quantity expected actual refused
      obtain ⟨slot, differs, _⟩ := refused_of_factorize same.symm ran refused
      cases differs
  · rw [factorize_of_misfit same] at ran
    cases ran
    refine refusesBy_of_check (fun error checked => ?_) fun checked => ?_
    · rw [checkLengths_singleton, checkLength, if_neg same] at checked
      cases checked
      rfl
    · exact absurd (checkLengths_eq_ok checked _ (List.mem_singleton_self _))
        same

end Factor

theorem verdict_split (layout : Layout) (vector : Array α) :
    verdict (layout.split vector) =
      Factor.checkLengths [(.systemVector, layout.size, vector.size)] := by
  rw [Layout.split, checkLengths_singleton]
  cases checkLength (α := α) .systemVector layout.size vector.size <;> rfl

theorem verdict_modify (layout : Layout) (vector : Array α)
    (change : Parts α → Parts α) : verdict (layout.modify vector change) =
      Factor.checkLengths [(.systemVector, layout.size, vector.size)] := by
  rw [← verdict_split, Layout.modify]
  cases layout.split vector <;> rfl

def Layout.demands (layout : Layout) (block : Block)
    (matrix : Option (Sparse α)) : List (Quantity × Nat × Nat) :=
  matrix.elim [] fun matrix =>
    [(.block block, (layout.shape block).1, matrix.rows),
      (.block block, (layout.shape block).2, matrix.cols)]

theorem checkShape_eq (layout : Layout) (block : Block)
    (matrix : Option (Sparse α)) : checkShape layout block matrix =
      Factor.checkLengths (layout.demands block matrix) := by
  cases matrix with
  | none => rfl
  | some matrix =>
      rw [Layout.demands, Option.elim_some, checkLengths_cons,
        checkLengths_singleton]
      rfl

theorem forM_checkShape (layout : Layout) (blocks : Blocks α)
    (kinds : List Block) :
    kinds.forM (fun block => checkShape layout block (blocks.get block)) =
      Factor.checkLengths (kinds.flatMap fun block =>
        layout.demands block (blocks.get block)) := by
  induction kinds with
  | nil => rfl
  | cons block rest ih =>
      rw [List.flatMap_cons, checkLengths_append, ← checkShape_eq, ← ih]
      rfl

theorem refusesNone_slotOf (pattern : Pattern) (row col : Nat) :
    RefusesNone (slotOf pattern row col : Except (Error α) Nat) := by
  rw [slotOf]
  cases pattern.slot? row col with
  | none => exact refusesNone_configuration _
  | some slot => exact refusesNone_ok slot

theorem refusesNone_blockSlots (pattern : Pattern) (layout : Layout)
    (blocks : Blocks α) (block : Block) :
    RefusesNone (blockSlots pattern layout blocks block) := by
  refine refusesNone_mapM (fun position => ?_) _
  cases position with
  | none => exact refusesNone_ok _
  | some place => exact (refusesNone_slotOf pattern place.1 place.2).map some

theorem refusesNone_make (pattern : Pattern) (layout : Layout)
    (blocks : Blocks α) : RefusesNone (SlotMap.make pattern layout blocks) := by
  have slots := refusesNone_blockSlots pattern layout blocks
  refine (slots .cost).bind fun cost => ?_
  refine (slots .equality).bind fun equality => ?_
  refine (slots .inequality).bind fun inequality => ?_
  have slack := refusesNone_mapM (α := α)
    (fun place : Nat × Nat => refusesNone_slotOf pattern place.1 place.2)
    layout.slackPositions
  exact slack.bind fun slack => refusesNone_ok _

theorem refusesBy_assemble [Scalar α] (layout : Layout) (blocks : Blocks α) :
    RefusesBy ([Block.cost, .equality, .inequality].flatMap fun block =>
        layout.demands block (blocks.get block))
      (NewtonSystem.assemble layout blocks) := by
  refine refusesBy_of_check (fun error checked => ?_) fun checked => ?_
  · rw [NewtonSystem.assemble, forM_checkShape, checked]
    rfl
  · rw [NewtonSystem.assemble, forM_checkShape, checked, Checked.ok_bind]
    refine RefusesNone.bind ?_ fun pattern => ?_
    · cases Pattern.ofUpperEntries layout.size (layout.allPositions blocks) with
      | error flaw => exact refusesNone_configuration _
      | ok pattern => exact refusesNone_ok _
    · exact (refusesNone_make pattern layout blocks).bind
        fun slots => refusesNone_ok _

def Update.demands (layout : Layout) :
    Update α → List (Quantity × Nat × Nat)
  | .barrier s z =>
      [(.barrierSlacks, layout.inequalities, s.size),
        (.barrierMultipliers, layout.inequalities, z.size)]
  | .diagonal values => [(.barrierDiagonal, layout.inequalities, values.size)]
  | .replace block matrix => layout.demands block (some matrix)

theorem refusesBy_apply [Scalar α] (system : NewtonSystem α)
    (update : Update α) :
    RefusesBy (update.demands system.layout) (update.apply system).result := by
  rw [Update.result_apply]
  cases update with
  | barrier s z =>
      apply refusesBy_of_eq
      rw [Update.check, Update.demands, checkLengths_cons,
        checkLengths_singleton]
  | diagonal values =>
      apply refusesBy_of_eq
      rw [Update.check, Update.demands, checkLengths_singleton]
  | replace block matrix =>
      rw [Update.check, Update.demands, checkShape_eq]
      refine refusesBy_of_check (fun error checked => ?_) fun checked => ?_
      · rw [checked]
        rfl
      · rw [checked, Checked.ok_bind]
        split
        · exact refusesNone_configuration _
        · exact refusesNone_ok _

/-! Matrices read into a pattern. -/

def Pattern.demands (pattern : Pattern) (matrix : Sparse α) :
    List (Quantity × Nat × Nat) :=
  [(.gatheredMatrix, pattern.size, matrix.rows),
    (.gatheredMatrix, pattern.size, matrix.cols)]

section Gather

variable [Scalar α] {pattern : Pattern} {matrix : Sparse α}

theorem refusesNone_gather (rows_eq : matrix.rows = pattern.size)
    (cols_eq : matrix.cols = pattern.size) :
    RefusesNone (pattern.gather matrix) := by
  intro quantity expected actual refused
  obtain ⟨_, _, _, _, _, _, _, differs, _⟩ :=
    (Pattern.gather_eq_error_iff rows_eq cols_eq).mp refused
  cases differs

theorem gather_eq_dimension_iff {quantity : Quantity} {expected actual : Nat} :
    pattern.gather matrix = .error (.dimension quantity expected actual) ↔
      ¬(matrix.rows = pattern.size ∧ matrix.cols = pattern.size) ∧
        (.gatheredMatrix, pattern.size, max matrix.rows matrix.cols) =
          (quantity, expected, actual) := by
  by_cases sizes : matrix.rows = pattern.size ∧ matrix.cols = pattern.size
  · exact iff_of_false (refusesNone_gather sizes.1 sizes.2 _ _ _)
      fun both => both.1 sizes
  · rw [Pattern.gather_misfit sizes]
    simp [sizes]

end Gather

end QuasiDefinite
