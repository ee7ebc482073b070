import QuasiDefinite.Proofs.Elimination.Reorder
import QuasiDefinite.Proofs.Exact.Field
import QuasiDefinite.Proofs.Factor.Answers
import QuasiDefinite.Proofs.Factor.History

namespace QuasiDefinite

/-- Values carried along when the indices of a pattern are renamed. -/
def Carries {α : Type} (place : Array Nat) (pattern pattern' : Pattern)
    (values values' : Array α) : Prop :=
  values'.size = values.size ∧ ∀ (slot slot' : Nat) (entry : Nat × Nat),
    pattern.entries[slot]? = some entry →
    pattern'.entries[slot']? = some (renamed place entry) →
    values'[slot']? = values[slot]?

namespace Reordering

variable {plan plan' : Plan} {pattern pattern' : Pattern}
  {signs signs' : Array Sign}
  (reordering : Reordering plan plan' pattern pattern' signs signs')

include reordering

variable {α : Type}

theorem carried {values values' : Array α}
    (carries : Carries plan.order.place pattern pattern' values values')
    {slot slot' : Nat} (moved : plan.slot[slot]? = some slot') :
    values'[slot']? = values[slot]? := by
  have relabels := reordering.regular.relabels
  have inside : slot < pattern.entries.length := by
    rw [reordering.regular.wellFormed.length_entries, ← relabels.slot_size]
    exact (Array.getElem?_eq_some_iff.mp moved).1
  have here := List.getElem?_eq_getElem inside
  obtain ⟨new, target, found⟩ := relabels.slot_renamed here
  obtain rfl : slot' = new := Option.some.inj (moved.symm.trans target)
  exact carries.2 slot slot' _ here (reordering.pattern_eq ▸ found)

theorem loaded {values values' matrix : Array α}
    (carries : Carries plan.order.place pattern pattern' values values')
    (loaded' : ∀ slot slot' : Nat, plan'.slot[slot]? = some slot' →
      matrix[slot']? = values'[slot]?) (slot slot' : Nat)
    (moved : plan.slot[slot]? = some slot') :
    matrix[slot']? = values[slot]? :=
  (loaded' slot' slot' (reordering.still (reordering.slot_lt moved))).trans
    (reordering.carried carries moved)

theorem permuted_eq {rhs rhs' start start' : Array α}
    (rhs_size : rhs.size = plan.size)
    (reorders : Reorders plan.order.order rhs rhs')
    (permutes : Factor.permuted plan rhs = .ok start)
    (permutes' : Factor.permuted plan' rhs' = .ok start') :
    start' = start := by
  obtain ⟨_, ran, start_size, same⟩ :=
    Factor.permuted_runs reordering.regular rhs_size
  rw [permutes] at ran
  cases ran
  obtain ⟨_, ran, start_size', same'⟩ :=
    Factor.permuted_runs reordering.regular' (reorders.1.trans
      (rhs_size.trans reordering.size_eq.symm))
  rw [permutes'] at ran
  cases ran
  rw [reordering.size_eq] at start_size'
  refine Checked.ext_of_size start_size' start_size fun k inside => ?_
  have found := reordering.order_self inside
  rw [reordering.regular.size_eq] at inside
  obtain ⟨index, _, listed, _⟩ :=
    reordering.regular.valid.exists_order inside
  rw [same' k k found, reorders.2 k index listed, same k index listed]

variable [Scalar α] {settings : Settings α}

theorem rejected_iff {values values' : Array α}
    (carries : Carries plan.order.place pattern pattern' values values')
    (values_size : values.size = plan.matrixCount) :
    Factor.rejected settings values' = none ↔
      Factor.rejected settings values = none := by
  have relabels := reordering.regular.relabels
  have count : plan.matrixCount = pattern.slotCount := relabels.slotCount_eq
  have mem_iff : ∀ value, value ∈ values' ↔ value ∈ values := by
    intro value
    rw [Array.mem_iff_getElem?, Array.mem_iff_getElem?]
    constructor
    · rintro ⟨slot', found⟩
      have inside := (Array.getElem?_eq_some_iff.mp found).1
      rw [carries.1, values_size, count] at inside
      obtain ⟨slot, moved⟩ := relabels.slot_onto slot' inside
      exact ⟨slot, (reordering.carried carries moved).symm.trans found⟩
    · rintro ⟨slot, found⟩
      have inside := (Array.getElem?_eq_some_iff.mp found).1
      rw [values_size, count] at inside
      rw [← relabels.slot_size] at inside
      have moved := Array.getElem?_eq_getElem inside
      exact ⟨_, (reordering.carried carries moved).trans found⟩
  simp only [Factor.rejected]
  split
  · simp [Array.findIdx?_eq_none_iff, mem_iff]
  · exact Iff.rfl

theorem holds {values values' : Array α} {factor : Factor α}
    {numbers : Numbers α}
    (carries : Carries plan.order.place pattern pattern' values values')
    (holds' : factor.Holds plan' settings values' numbers) :
    factor.Holds plan settings values numbers := by
  have matrix := reordering.loaded carries holds'.matrix
  rw [reordering.same.eq] at holds'
  exact ⟨⟨holds'.fits.matrix_size, holds'.fits.lower_size,
    holds'.fits.diagonal_size, holds'.fits.inverse_size, holds'.fits.work⟩,
    matrix, holds'.lower, holds'.diagonal, holds'.inverse, holds'.summary,
    holds'.ready, ⟨holds'.solves.entry, holds'.solves.pivot⟩⟩

theorem factorize_runs {values values' : Array α} {factor factor' : Factor α}
    (fits : factor.Fits plan) (fits' : factor'.Fits plan')
    (carries : Carries plan.order.place pattern pattern' values values') :
    ∃ reply reply', Factor.factorize plan settings values factor = .ok reply ∧
      Factor.factorize plan' settings values' factor' = .ok reply' ∧
      ((∃ summary, reply.result = .ok summary) ↔
        ∃ summary, reply'.result = .ok summary) ∧
      ∀ summary, reply.result = .ok summary →
        reply' = reply ∧ reply.state.Fits plan := by
  by_cases accepted : values.size = plan.matrixCount ∧
      Factor.rejected settings values = none
  · obtain ⟨values_size, finite⟩ := accepted
    have values_size' : values'.size = plan'.matrixCount := by
      rw [carries.1, values_size, reordering.matrixCount_eq]
    have finite' := (reordering.rejected_iff carries values_size).mpr finite
    obtain ⟨new, numbers, ran, holds⟩ := Factor.factorize_runs
      reordering.regular fits values_size finite
    obtain ⟨new', numbers', ran', holds'⟩ := Factor.factorize_runs
      reordering.regular' fits' values_size' finite'
    have moved := reordering.holds carries holds'
    obtain rfl := moved.unique reordering.regular holds
    have pivots : Factor.pivotsOf plan' numbers' =
        Factor.pivotsOf plan numbers := by
      rw [Factor.pivotsOf, reordering.size_eq]
      exact moved.pivots_eq reordering.regular holds
    refine ⟨_, _, ran, ran', iff_of_true ⟨_, rfl⟩ ⟨_, rfl⟩,
      fun _ _ => ⟨?_, holds.fits⟩⟩
    rw [pivots]
  · obtain ⟨reply, ran, _⟩ :=
      Factor.Fits.factorize_runs reordering.regular fits settings values
    obtain ⟨reply', ran', _⟩ :=
      Factor.Fits.factorize_runs reordering.regular' fits' settings values'
    have failed : ¬∃ summary, reply.result = .ok summary :=
      fun succeeded => succeeded.elim fun _ succeeded =>
        accepted (Factor.accepted_of_factorize ran succeeded)
    refine ⟨reply, reply', ran, ran', iff_of_false failed ?_,
      fun summary succeeded => absurd ⟨summary, succeeded⟩ failed⟩
    rintro ⟨summary, succeeded⟩
    obtain ⟨values_size, finite⟩ :=
      Factor.accepted_of_factorize ran' succeeded
    rw [carries.1, reordering.matrixCount_eq] at values_size
    exact accepted
      ⟨values_size, (reordering.rejected_iff carries values_size).mp finite⟩

theorem solve_runs {factor : Factor α} {space space' : Workspace α}
    {rhs rhs' target target' : Array α} (fits : factor.Fits plan)
    (fitsSpace : space.Fits plan.size) (fitsSpace' : space'.Fits plan.size)
    (rhs_size : rhs.size = plan.size)
    (target_size : target.size = plan.size)
    (target_size' : target'.size = plan.size)
    (reorders : Reorders plan.order.order rhs rhs') :
    ∃ x x' next next',
      factor.solve plan space rhs target = .ok (.answer (next, x) ()) ∧
      factor.solve plan' space' rhs' target' =
        .ok (.answer (next', x') ()) ∧
      x.size = plan.size ∧ Reorders plan.order.order x x' := by
  have size_eq := reordering.size_eq
  have rhs_size' : rhs'.size = plan'.size := by
    rw [reorders.1, rhs_size, size_eq]
  obtain ⟨start, permutes, start_size, _⟩ :=
    Factor.permuted_runs reordering.regular rhs_size
  obtain ⟨start', permutes', _⟩ :=
    Factor.permuted_runs reordering.regular' rhs_size'
  obtain rfl := reordering.permuted_eq rhs_size reorders permutes permutes'
  obtain ⟨work, z, substitutes, reads, _⟩ := Factor.substitute_runs
    reordering.regular fits (reads_getD start_size 0)
  have substitutes' : factor.substitute plan' start' = .ok work := by
    rw [reordering.same.eq]
    exact substitutes
  obtain ⟨x, writes, x_size, written⟩ :=
    Factor.unpermuted_runs reordering.regular reads.1 target_size
  obtain ⟨x', writes', x_size', written'⟩ :=
    Factor.unpermuted_runs reordering.regular'
      (reads.1.trans size_eq.symm) (target_size'.trans size_eq.symm)
  refine ⟨x, x', _, _,
    Factor.solve_eq fitsSpace rhs_size target_size permutes substitutes writes,
    Factor.solve_eq (size_eq ▸ fitsSpace') rhs_size'
      (target_size'.trans size_eq.symm) permutes' substitutes' writes',
    x_size, ?_, fun k index listed => ?_⟩
  · rw [x_size, x_size', size_eq]
  · have inside := (Array.getElem?_eq_some_iff.mp listed).1
    rw [reordering.regular.valid.order_size,
      ← reordering.regular.size_eq] at inside
    rw [written k index listed,
      written' k k (reordering.order_self inside)]

end Reordering

/-- Eliminating in a given order is eliminating the renamed problem in natural
order: the plans match, every slot follows its entry, and after any histories
the two problems are accepted alike, factored to the same numbers and solved to
the same solution in two orders. -/
theorem Factor.reorder_eq_relabel {α : Type} [Scalar α] {pattern : Pattern}
    {signs : Array Sign} {order : Array Nat}
    (constructed : pattern.Constructed)
    (signs_size : signs.size = pattern.size)
    (perm : order.toList.Perm (List.range pattern.size)) :
    ∃ plan pattern',
      Plan.make pattern signs (.supplied order) = .ok (.ok plan) ∧
      plan.order.order = order ∧ plan.order.Valid pattern.size ∧
      Pattern.ofUpperEntries pattern.size
        (pattern.entries.map (renamed plan.order.place)) = .ok pattern' ∧
      ∀ signs', Reorders order signs signs' → ∃ plan',
        Plan.make pattern' signs' .natural = .ok (.ok plan') ∧
        plan.Matches plan' ∧ plan.Follows pattern pattern' ∧
        ∀ (history history' : List (Settings α × Array α)),
          ∃ factor factor', replay plan history = .ok factor ∧
            replay plan' history' = .ok factor' ∧
            ∀ settings values values',
              Carries plan.order.place pattern pattern' values values' →
              ∃ reply reply',
                factorize plan settings values factor = .ok reply ∧
                factorize plan' settings values' factor' = .ok reply' ∧
                ((∃ summary, reply.result = .ok summary) ↔
                  ∃ summary, reply'.result = .ok summary) ∧
                ∀ summary, reply.result = .ok summary → reply' = reply ∧
                  ∀ (space space' : Workspace α), space.Fits pattern.size →
                    space'.Fits pattern.size →
                  ∀ rhs rhs' target target', rhs.size = pattern.size →
                    target.size = pattern.size → target'.size = pattern.size →
                    Reorders order rhs rhs' → ∃ x x' next next',
                      reply.state.solve plan space rhs target =
                        .ok (.answer (next, x) ()) ∧
                      reply'.state.solve plan' space' rhs' target' =
                        .ok (.answer (next', x') ()) ∧
                      x.size = pattern.size ∧ Reorders order x x' := by
  obtain ⟨plan, pattern', made, listed, valid, built, renames⟩ :=
    Plan.exists_reordering constructed signs_size perm
  refine ⟨plan, pattern', made, listed, valid, built,
    fun signs' reorders => ?_⟩
  obtain ⟨plan', made', reordering⟩ := renames signs' reorders
  have size_eq := reordering.regular.size_eq
  refine ⟨plan', made', reordering.same, reordering.follows,
    fun history history' => ?_⟩
  obtain ⟨factor, ran, fits⟩ := replay_fits reordering.regular history
  obtain ⟨factor', ran', fits'⟩ := replay_fits reordering.regular' history'
  refine ⟨factor, factor', ran, ran', fun settings values values' carries => ?_⟩
  obtain ⟨reply, reply', replied, replied', accepted, same⟩ :=
    reordering.factorize_runs fits fits' carries
  refine ⟨reply, reply', replied, replied', accepted,
    fun summary succeeded => ?_⟩
  obtain ⟨rfl, fitsNew⟩ := same summary succeeded
  refine ⟨rfl, fun space space' fitsSpace fitsSpace' rhs rhs' target target'
    rhs_size target_size target_size' moved => ?_⟩
  rw [← size_eq] at fitsSpace fitsSpace'
  obtain ⟨x, x', next, next', solved, solved', x_size, moved'⟩ :=
    reordering.solve_runs fitsNew fitsSpace fitsSpace'
      (rhs_size.trans size_eq.symm) (target_size.trans size_eq.symm)
      (target_size'.trans size_eq.symm) (listed ▸ moved)
  exact ⟨x, x', next, next', solved, solved', x_size.trans size_eq,
    listed ▸ moved'⟩

theorem Factor.reorder_eq_relabel_arrow :
    ∃ plan : Plan,
      Plan.make ⟨4, ⟨#[0, 1, 3, 5, 7], #[0, 0, 1, 0, 2, 0, 3]⟩⟩
        #[.positive, .negative, .positive, .negative]
        (.supplied #[2, 0, 3, 1]) = .ok (.ok plan) ∧
      ∃ plan' : Plan,
        Plan.make ⟨4, ⟨#[0, 1, 3, 5, 7], #[0, 0, 1, 1, 2, 1, 3]⟩⟩
          #[.positive, .positive, .negative, .negative] .natural =
            .ok (.ok plan') ∧
        plan.Matches plan' ∧ ∃ reply reply' : Reply ℚ (Factor ℚ) (Summary ℚ),
          factorize plan ⟨.natural, 1 / 10, 1 / 1000, 1 / 100, 1, true, 0, 3⟩
            #[2, 3, -5, 7, 11, 13, -17] (fresh plan) = .ok reply ∧
          factorize plan' ⟨.natural, 1 / 10, 1 / 1000, 1 / 100, 1, true, 0, 3⟩
            #[11, 7, 2, 13, -17, 3, -5] (fresh plan') = .ok reply' ∧
          ∀ summary, reply.result = .ok summary → reply' = reply := by
  have constructed : Pattern.Constructed
      ⟨4, ⟨#[0, 1, 3, 5, 7], #[0, 0, 1, 0, 2, 0, 3]⟩⟩ :=
    .upper (by cbv : Pattern.ofUpperEntries 4 [(0, 1), (0, 2), (0, 3)] = _)
  obtain ⟨plan, pattern', made, listed, valid, built, renames⟩ :=
    @Factor.reorder_eq_relabel ℚ _ _
      #[.positive, .negative, .positive, .negative] #[2, 0, 3, 1]
      constructed rfl (by decide)
  have place : plan.order.place = #[1, 3, 0, 2] := by
    have inverse := valid.inverse
    rw [listed] at inverse
    refine Checked.ext_of_size valid.place_size rfl fun k inside => ?_
    have cases' : k = 0 ∨ k = 1 ∨ k = 2 ∨ k = 3 := by
      change k < 4 at inside
      omega
    rcases cases' with rfl | rfl | rfl | rfl
    · exact (inverse 1 0).mp rfl
    · exact (inverse 3 1).mp rfl
    · exact (inverse 0 2).mp rfl
    · exact (inverse 2 3).mp rfl
  rw [place, show Pattern.ofUpperEntries _ _ =
    .ok ⟨4, ⟨#[0, 1, 3, 5, 7], #[0, 0, 1, 1, 2, 1, 3]⟩⟩ by
      decide +kernel] at built
  cases built
  obtain ⟨plan', made', same, _, after⟩ := renames
    #[.positive, .positive, .negative, .negative] ⟨rfl, by
      intro k index found
      obtain ⟨inside, rfl⟩ := Array.getElem?_eq_some_iff.mp found
      exact (by decide : ∀ k : Fin 4,
        (#[.positive, .positive, .negative, .negative] : Array Sign)[k.val]? =
          (#[.positive, .negative, .positive, .negative] : Array Sign)[
            (#[2, 0, 3, 1] : Array Nat)[k.val]]?) ⟨k, inside⟩⟩
  obtain ⟨factor, factor', ran, ran', factors⟩ := after [] []
  cases ran
  cases ran'
  obtain ⟨reply, reply', replied, replied', _, equal⟩ := factors
    ⟨.natural, 1 / 10, 1 / 1000, 1 / 100, 1, true, 0, 3⟩
    #[2, 3, -5, 7, 11, 13, -17] #[11, 7, 2, 13, -17, 3, -5] (by
      rw [place]
      refine ⟨rfl, fun slot slot' entry found found' => ?_⟩
      have inside := (List.getElem?_eq_some_iff.mp found).1
      have inside' := (List.getElem?_eq_some_iff.mp found').1
      exact (by decide +kernel : ∀ slot slot' : Fin 7,
        (Pattern.entries ⟨4, ⟨#[0, 1, 3, 5, 7], #[0, 0, 1, 1, 2, 1, 3]⟩⟩)[
            slot'.val]? = (Pattern.entries
              ⟨4, ⟨#[0, 1, 3, 5, 7], #[0, 0, 1, 0, 2, 0, 3]⟩⟩)[slot.val]?.map
                (renamed #[1, 3, 0, 2]) →
          (#[11, 7, 2, 13, -17, 3, -5] : Array ℚ)[slot'.val]? =
            (#[2, 3, -5, 7, 11, 13, -17] : Array ℚ)[slot.val]?)
        ⟨slot, inside⟩ ⟨slot', inside'⟩ (by rw [found, found']; rfl))
  exact ⟨plan, made, plan', made', same, reply, reply', replied, replied',
    fun summary succeeded => (equal summary succeeded).1⟩

end QuasiDefinite
