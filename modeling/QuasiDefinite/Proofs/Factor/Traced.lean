import QuasiDefinite.Proofs.Elimination.Workload
import QuasiDefinite.Proofs.Factor.Sweep

namespace QuasiDefinite

open Elimination

/-- What a step takes from the work array and from the pivot. -/
def Plan.reductionsOf (plan : Plan) (step : Step) : List Reduction :=
  (span (plan.lower.start.getD step.col 0) step.slot).map .work ++
    [.pivot step.slot]

def Plan.reductions (plan : Plan) : List Reduction :=
  plan.schedule.flatMap plan.reductionsOf

/-- A run that notes its reductions, in their order. -/
abbrev Traced := StateT (List Reduction) Checked

instance : Reducing Traced where
  takeProduct reduction value left right := do
    modify (· ++ [reduction])
    return value - left * right

namespace Traced

variable {α β γ σ : Type}

/-- The traced run does what the run does, faults included, and notes the
reductions. -/
structure Traces (traced : Traced β) (run : Checked β)
    (reductions : List Reduction) : Prop where
  run_eq : ∀ earlier, traced.run earlier =
    (fun value => (value, earlier ++ reductions)) <$> run

namespace Traces

theorem pure (value : β) : Traces (pure value) (pure value) [] where
  run_eq earlier := by
    rw [List.append_nil]
    rfl

theorem lift (run : Checked β) : Traces (liftM run) run [] where
  run_eq earlier := by
    rw [List.append_nil]
    cases run with
    | error _ => rfl
    | ok _ => rfl

theorem bind {traced : Traced β} {run : Checked β}
    {next : β → Traced γ} {next' : β → Checked γ}
    {reductions reductions' : List Reduction}
    (traces : Traces traced run reductions)
    (later : ∀ value, run = .ok value →
      Traces (next value) (next' value) reductions') :
    Traces (traced >>= next) (run >>= next') (reductions ++ reductions') where
  run_eq earlier := by
    rw [StateT.run_bind, traces.run_eq]
    cases run with
    | error _ => rfl
    | ok value =>
        rw [← List.append_assoc]
        exact (later value rfl).run_eq (earlier ++ reductions)

theorem run_eq_of {traced : Traced β} {run : Checked β}
    {reductions : List Reduction} (traces : Traces traced run reductions)
    {noted : β → List Reduction}
    (same : ∀ value, run = .ok value → noted value = reductions) :
    traced.run [] = (fun value => (value, noted value)) <$> run := by
  rw [traces.run_eq]
  cases run with
  | error _ => rfl
  | ok value =>
      rw [List.nil_append, ← same value rfl]
      rfl

theorem lift_bind {run : Checked β} {next : β → Traced γ}
    {next' : β → Checked γ} {reductions : List Reduction}
    (later : ∀ value, run = .ok value →
      Traces (next value) (next' value) reductions) :
    Traces (liftM run >>= next) (run >>= next') reductions :=
  (lift run).bind later

theorem foldlM {traced : σ → β → Traced σ} {run : σ → β → Checked σ}
    {reductions : β → List Reduction} {entries : List β}
    (each : ∀ state, ∀ entry ∈ entries,
      Traces (traced state entry) (run state entry) (reductions entry))
    (start : σ) :
    Traces (entries.foldlM traced start) (entries.foldlM run start)
      (entries.flatMap reductions) := by
  induction entries generalizing start with
  | nil => exact pure start
  | cons entry rest ih =>
      rw [List.foldlM_cons, List.foldlM_cons, List.flatMap_cons]
      refine (each start entry (List.mem_cons_self ..)).bind fun state _ => ?_
      exact ih (fun state other member =>
        each state other (List.mem_cons_of_mem _ member)) state

end Traces

section Runs

variable [Scalar α] {plan : Plan}

theorem Traces.takeProduct {reduction : Reduction} {value left right : α}
    {next : α → Traced γ} {run : Checked γ} {reductions : List Reduction}
    (later : Traces (next (value - left * right)) run reductions) :
    Traces (takeProduct reduction value left right >>= next) run
      (reduction :: reductions) where
  run_eq earlier := by
    rw [List.append_cons]
    exact later.run_eq (earlier ++ [reduction])

theorem reduceWork_traces (lower : Array α) (entry : α) (first last : Nat)
    (work : Array α) :
    Traces (reduceWork Traced plan lower entry first last work)
      (reduceWork Checked plan lower entry first last work)
      ((span first last).map .work) := by
  rw [List.map_eq_flatMap]
  refine .foldlM (fun work slot _ => ?_) work
  exact .lift_bind fun row _ => .lift_bind fun value _ =>
    .lift_bind fun old _ => .takeProduct (.lift _)

theorem step_traces (inverse : Array α) (state : RowState α) (step : Step) :
    Traces (RowState.step Traced plan inverse state step)
      (RowState.step Checked plan inverse state step)
      (plan.reductionsOf step) := by
  refine .lift_bind fun entry _ => .lift_bind fun work _ =>
    .lift_bind fun first found => ?_
  have start : plan.lower.start.getD step.col 0 = first :=
    getD_of_getElem? (Checked.get_eq_ok_iff.mp found)
  rw [Plan.reductionsOf, start]
  refine (reduceWork_traces ..).bind fun work _ => ?_
  exact .lift_bind fun inverse _ => .lift_bind fun lower _ =>
    .takeProduct (.pure _)

theorem row_traces (settings : Settings α) (matrix : Array α)
    (sweep : Sweep α) (row : Nat) :
    Traces (Sweep.row Traced plan settings matrix sweep row)
      (Sweep.row Checked plan settings matrix sweep row)
      ((plan.stepsAt row).flatMap plan.reductionsOf) := by
  refine .lift_bind fun slot _ => .lift_bind fun first _ =>
    .lift_bind fun work _ => .lift_bind fun sign _ => .lift_bind fun value _ =>
    .lift_bind fun steps found => ?_
  have listed : plan.stepsAt row = steps := by
    rw [Plan.stepsAt, found]
    rfl
  rw [listed, ← List.append_nil (steps.flatMap _)]
  refine Traces.bind (.foldlM (fun state step _ =>
    step_traces sweep.inverse state step) _) fun state _ => ?_
  exact .lift_bind fun diagonal _ => .lift_bind fun inverse _ => .pure _

theorem all_traces (settings : Settings α) (matrix : Array α)
    (start : Sweep α) :
    Traces (Sweep.all Traced plan settings matrix start)
      (Sweep.all Checked plan settings matrix start) plan.reductions := by
  rw [Plan.reductions, Plan.schedule, List.flatMap_assoc]
  exact .foldlM (fun sweep row _ => row_traces settings matrix sweep row) start

theorem factorizeIn_run (settings : Settings α) (values : Array α)
    (factor : Factor α) :
    (Factor.factorizeIn Traced plan settings values factor).run [] =
      (fun reply => (reply,
        if reply.result.isOk then plan.reductions else [])) <$>
        Factor.factorize plan settings values factor := by
  by_cases count : plan.matrixCount = values.size
  · cases found : Factor.rejected settings values with
    | some slot =>
        rw [Factor.factorizeIn_of_rejected count found,
          Factor.factorize_of_rejected count found]
        rfl
    | none =>
        rw [Factor.factorizeIn_of_accepted count found,
          Factor.factorize_of_accepted count found]
        refine Traces.run_eq_of (.lift_bind fun matrix _ =>
          (all_traces settings matrix _).bind fun sweep _ => .pure _)
          fun reply ran => ?_
        simp only [Checked.bind_eq_ok_iff] at ran
        obtain ⟨_, _, _, _, made⟩ := ran
        cases made
        exact (List.append_nil _).symm
  · rw [Factor.factorizeIn_of_misfit count, Factor.factorize_of_misfit count]
    rfl

end Runs

end Traced

namespace Plan

variable {pattern : Pattern} {signs : Array Sign} {rule : OrderRule}
  {plan : Plan} {step : Step} {cost : Nat}

theorem length_reductionsOf (costs : plan.cost step = .ok cost) :
    (plan.reductionsOf step).length = cost := by
  rw [Plan.cost, Checked.bind_eq_ok_iff] at costs
  obtain ⟨first, found, costs⟩ := costs
  rw [Checked.bind_eq_ok_iff] at costs
  obtain ⟨before, apart, costs⟩ := costs
  cases costs
  have start : plan.lower.start.getD step.col 0 = first :=
    getD_of_getElem? (Checked.get_eq_ok_iff.mp found)
  rw [Checked.sub_eq_ok_iff] at apart
  rw [reductionsOf, start, List.length_append, List.length_map, span,
    List.length_range', List.length_singleton]
  omega

theorem length_reductions {costs : List Nat}
    (costed : plan.schedule.mapM plan.cost = .ok costs) :
    plan.reductions.length = costs.sum := by
  have each : ∀ step ∈ plan.schedule,
      plan.cost step = .ok (plan.reductionsOf step).length := by
    intro step member
    obtain ⟨cost, found⟩ := Checked.exists_of_mapM costed step member
    rw [found, length_reductionsOf found]
  rw [Checked.mapM_runs each] at costed
  rw [reductions, List.length_flatMap, Except.ok.inj costed]

/-- A plan fixes the reductions of every factorization that follows it, and
their number is the workload: the sum, over the steps of all rows, of one more
than the slots before that of the step in its column. Whatever the values, the
settings and the state of the arrays are, a factorization that succeeds makes
these reductions, in their order, and one that is refused makes none. -/
theorem factorize_follows_schedule (constructed : pattern.Constructed)
    (signs_size : signs.size = pattern.size)
    (perm : (rule.listing pattern).toList.Perm (List.range pattern.size)) :
    ∃ plan costs, make pattern signs rule = .ok (.ok plan) ∧
      plan.size = pattern.size ∧
      (∀ row, row < pattern.size →
        plan.steps row = .ok (plan.stepsAt row)) ∧
      plan.schedule.mapM plan.cost = .ok costs ∧
      plan.workload = .ok costs.sum ∧ plan.reductions.length = costs.sum ∧
      ∀ {α : Type} [Scalar α] (settings : Settings α) (values : Array α)
        (factor : Factor α),
        (Factor.factorizeIn Traced plan settings values factor).run [] =
          (fun reply => (reply,
            if reply.result.isOk then plan.reductions else [])) <$>
            Factor.factorize plan settings values factor := by
  obtain ⟨plan, made, regular, _⟩ := make_runs constructed signs_size perm
  obtain ⟨costs, costed, workload⟩ := regular.workload_eq
  refine ⟨plan, costs, made, regular.size_eq, fun row inside => ?_, costed,
    workload, length_reductions costed, Traced.factorizeIn_run⟩
  exact regular.steps_eq_stepsAt (regular.size_eq.symm ▸ inside)

theorem factorize_follows_schedule_arrow :
    let pattern : Pattern := ⟨4, ⟨#[0, 1, 3, 5, 7], #[0, 0, 1, 0, 2, 0, 3]⟩⟩
    let signs : Array Sign := #[.positive, .negative, .positive, .negative]
    ∃ plan, make pattern signs (.supplied #[2, 0, 3, 1]) = .ok (.ok plan) ∧
      plan.workload = .ok plan.reductions.length ∧
      ∀ (settings : Settings Float) (values : Array Float)
        (factor : Factor Float),
        (Factor.factorizeIn Traced plan settings values factor).run [] =
          (fun reply => (reply,
            if reply.result.isOk then plan.reductions else [])) <$>
            Factor.factorize plan settings values factor := by
  intro pattern signs
  obtain ⟨plan, costs, made, _, _, _, workload, length_eq, follows⟩ :=
    @factorize_follows_schedule pattern signs (.supplied #[2, 0, 3, 1])
      (.upper (by cbv : Pattern.ofUpperEntries 4 [(0, 1), (0, 2), (0, 3)] =
        .ok ⟨4, ⟨#[0, 1, 3, 5, 7], #[0, 0, 1, 0, 2, 0, 3]⟩⟩))
      rfl (by decide)
  exact ⟨plan, made, length_eq ▸ workload, follows⟩

end Plan

end QuasiDefinite
