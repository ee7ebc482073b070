import QuasiDefinite.Proofs.Factor.Row

namespace QuasiDefinite

open Elimination Compressed

variable {α : Type} {plan : Plan} {pattern : Pattern} {signs : Array Sign}

theorem loadMatrix_runs (regular : plan.Regular pattern signs)
    {values matrix : Array α} (values_size : values.size = plan.matrixCount)
    (matrix_size : matrix.size = plan.matrixCount) :
    ∃ new, loadMatrix plan values matrix = .ok new ∧
      new.size = plan.matrixCount ∧ ∀ slot slot' : Nat,
        plan.slot[slot]? = some slot' → new[slot']? = values[slot]? := by
  have count : plan.matrixCount = pattern.slotCount :=
    regular.relabels.slotCount_eq
  have slot_size : plan.slot.size = pattern.slotCount :=
    regular.relabels.slot_size
  obtain ⟨new, ran, new_size, loaded⟩ :=
    @Checked.foldlM_set_runs _ plan.slot.toList values.toList matrix
      (by
        intro slot' member
        obtain ⟨slot, found⟩ := List.mem_iff_getElem?.mp member
        rw [Array.getElem?_toList] at found
        rw [matrix_size, count]
        exact regular.relabels.slot_lt regular.wellFormed found)
      (by
        rw [Array.length_toList, Array.length_toList, slot_size, values_size,
          count])
      (by
        intro slot slot' index found found'
        rw [Array.getElem?_toList] at found found'
        exact regular.relabels.slot_injective _ _ _ found found')
  refine ⟨new, ran, new_size.trans matrix_size, fun slot slot' found => ?_⟩
  rw [loaded slot slot' (by rwa [Array.getElem?_toList]),
    Array.getElem?_toList]

theorem Plan.matrix_ext (regular : plan.Regular pattern signs)
    {left right values : Array α} (left_size : left.size = plan.matrixCount)
    (right_size : right.size = plan.matrixCount)
    (loaded : ∀ slot slot' : Nat, plan.slot[slot]? = some slot' →
      left[slot']? = values[slot]?)
    (loaded' : ∀ slot slot' : Nat, plan.slot[slot]? = some slot' →
      right[slot']? = values[slot]?) : left = right := by
  have count : plan.matrixCount = pattern.slotCount :=
    regular.relabels.slotCount_eq
  refine Checked.ext_of_size left_size right_size fun slot' inside => ?_
  obtain ⟨slot, found⟩ := regular.relabels.slot_onto slot' (count ▸ inside)
  rw [loaded slot slot' found, loaded' slot slot' found]

variable [Scalar α]

theorem Plan.valueAt_of_entry (regular : plan.Regular pattern signs)
    {matrix : Array α} {slot row col : Nat} {value : α}
    (found : plan.pattern.entries[slot]? = some (min row col, max row col))
    (held : matrix[slot]? = some value) :
    plan.valueAt matrix row col = value := by
  have slotted := regular.relabels.wellFormed.slot?_eq_some_iff.mpr found
  dsimp only at slotted
  rw [valueAt, slotted]
  exact getD_of_getElem? held

theorem Plan.valueAt_eq_zero (regular : plan.Regular pattern signs)
    {matrix : Array α} {row col : Nat} (below : col < row)
    (absent : col ∉ plan.rowColumns row) :
    plan.valueAt matrix col row = 0 := by
  rw [valueAt]
  split
  · next slot slotted =>
    have found := regular.relabels.wellFormed.slot?_eq_some_iff.mp slotted
    have joins := (regular.relabels.mem_entries regular.wellFormed
      regular.valid).mp (List.mem_of_getElem? found)
    exact absurd (regular.mem_rowColumns.mpr (.entry below joins)) absent
  · rfl

def Plan.spreadAt (plan : Plan) (matrix : Array α) (done : List Nat)
    (row col : Nat) : α :=
  ((plan.pattern.slot? col row).filter (· ∈ done)).elim 0 (matrix.getD · 0)

theorem Plan.spreadAt_of_some {matrix : Array α} {done : List Nat}
    {row col slot : Nat} (slotted : plan.pattern.slot? col row = some slot) :
    plan.spreadAt matrix done row col =
      if slot ∈ done then matrix.getD slot 0 else 0 := by
  rw [spreadAt, slotted, Option.filter]
  by_cases member : slot ∈ done
  · simp [member]
  · simp [member]

theorem Plan.spreadAt_of_none {matrix : Array α} {done : List Nat}
    {row col : Nat} (slotted : plan.pattern.slot? col row = none) :
    plan.spreadAt matrix done row col = 0 := by
  rw [spreadAt, slotted]
  rfl

theorem Plan.spreadAt_append (moved : plan.pattern.WellFormed)
    {matrix : Array α} {done : List Nat} {row i slot : Nat} {value : α}
    (slotted : plan.pattern.slot? i row = some slot)
    (held : matrix[slot]? = some value) (other : Nat) :
    plan.spreadAt matrix (done ++ [slot]) row other =
      if i = other then value else plan.spreadAt matrix done row other := by
  by_cases same : i = other
  · subst same
    rw [spreadAt_of_some slotted, if_pos rfl, getD_of_getElem? held]
    exact if_pos (List.mem_append_right _ (List.mem_singleton_self _))
  · rw [if_neg same]
    cases slotted' : plan.pattern.slot? other row with
    | none => rw [spreadAt_of_none slotted', spreadAt_of_none slotted']
    | some slot' =>
        have differs : slot' ≠ slot := by
          intro equal
          subst equal
          have found := moved.slot?_eq_some_iff.mp slotted
          rw [moved.slot?_eq_some_iff.mp slotted', Option.some.injEq,
            Prod.mk.injEq] at found
          omega
        rw [spreadAt_of_some slotted', spreadAt_of_some slotted']
        simp [differs]

theorem Plan.spreadAt_span (moved : plan.pattern.WellFormed)
    {matrix : Array α} {row first last : Nat}
    (slots : ∀ slot, first ≤ slot ∧ slot < last ↔ ∃ i, i < row ∧
      plan.pattern.entries[slot]? = some (i, row)) (i : Nat) :
    plan.spreadAt matrix (span first last) row i =
      if i < row then plan.valueAt matrix i row else 0 := by
  rw [valueAt]
  cases slotted : plan.pattern.slot? i row with
  | none =>
      rw [spreadAt_of_none slotted]
      simp
  | some slot =>
      have found := moved.slot?_eq_some_iff.mp slotted
      have scheduled : slot ∈ span first last ↔ i < row := by
        rw [mem_span, slots]
        constructor
        · intro above
          obtain ⟨i', below, found'⟩ := above
          rw [found, Option.some.injEq, Prod.mk.injEq] at found'
          omega
        · intro below
          rw [Nat.min_eq_left (Nat.le_of_lt below),
            Nat.max_eq_right (Nat.le_of_lt below)] at found
          exact ⟨i, below, found⟩
      rw [spreadAt_of_some slotted]
      simp only [scheduled]

theorem spreadRow_runs (regular : plan.Regular pattern signs)
    {matrix : Array α} {row first last : Nat} (inside : row < plan.size)
    (matrix_size : matrix.size = plan.matrixCount)
    (slots : ∀ slot, first ≤ slot ∧ slot < last ↔ ∃ i, i < row ∧
      plan.pattern.entries[slot]? = some (i, row)) :
    ∃ new, spreadRow plan matrix first last (.replicate plan.size 0) =
        .ok new ∧ new.size = plan.size ∧ ∀ i : Nat, i < plan.size →
      new[i]? = some (if i < row then plan.valueAt matrix i row else 0) := by
  have moved : plan.pattern.WellFormed := regular.relabels.wellFormed
  obtain ⟨new, ran, new_size, spread⟩ :=
    @Checked.foldlM_runs _ _ _
      (fun work slot => do
        let col ← Checked.get plan.pattern.upper.index slot
        let value ← Checked.get matrix slot
        Checked.set work col value)
      (span first last)
      (fun done (new : Array α) => new.size = plan.size ∧
        ∀ i : Nat, i < plan.size →
          new[i]? = some (plan.spreadAt matrix done row i))
      (.replicate plan.size 0)
      (by
        refine ⟨by simp, fun i inside => ?_⟩
        simp [Plan.spreadAt, inside])
      (by
        rintro done slot rest new split ⟨new_size, spread⟩
        have member : slot ∈ span first last := by simp [split]
        obtain ⟨i, below, found⟩ := (slots slot).mp (mem_span.mp member)
        have insideMatrix : slot < matrix.size := by
          rw [matrix_size, Plan.matrixCount, ← moved.length_entries]
          exact (List.getElem?_eq_some_iff.mp found).1
        have insideNew : i < new.size := by
          rw [new_size]
          exact Nat.lt_trans below inside
        have slotted : plan.pattern.slot? i row = some slot := by
          rw [moved.slot?_eq_some_iff, Nat.min_eq_left (Nat.le_of_lt below),
            Nat.max_eq_right (Nat.le_of_lt below), found]
        rw [Checked.get_eq_ok_iff.mpr (moved.index_eq found), Checked.ok_bind,
          Checked.get_eq_ok insideMatrix, Checked.ok_bind]
        refine ⟨_, Checked.set_eq_ok_iff.mpr ⟨insideNew, rfl⟩,
          by simpa using new_size, fun other insideOther => ?_⟩
        rw [Plan.spreadAt_append moved slotted
            (Array.getElem?_eq_getElem insideMatrix),
          Array.getElem?_setIfInBounds]
        by_cases same : i = other
        · rw [if_pos same, if_pos (same ▸ insideNew), if_pos same]
        · rw [if_neg same, if_neg same, spread other insideOther])
  refine ⟨new, ran, new_size, fun i insideI => ?_⟩
  rw [spread i insideI, Plan.spreadAt_span moved slots]

theorem RowState.holds_spread (regular : plan.Regular pattern signs)
    {matrix work lower : Array α} {numbers : Numbers α} {row : Nat}
    {shifted : α} (work_size : work.size = plan.size)
    (lower_size : lower.size = plan.factorCount)
    (spread : ∀ i : Nat, i < plan.size → work[i]? =
      some (if i < row then plan.valueAt matrix i row else 0))
    (earlier : ∀ i col : Nat, i < row → col ∈ plan.rowColumns i →
      lower[factorSlot plan.rowLists col i]? =
        some (numbers.multiplier i col)) :
    RowState.Holds ⟨work, lower, shifted⟩ plan matrix numbers row []
      shifted where
  work_size := work_size
  lower_size := lower_size
  cleared := by
    intro col inside outside
    have absent : col ∉ plan.rowColumns row := by simpa using outside
    dsimp only
    rw [spread col inside]
    split
    · next below => rw [Plan.valueAt_eq_zero regular below absent]
    · rfl
  waiting := by
    intro col member _
    obtain ⟨below, inside⟩ := regular.lt_of_mem member
    dsimp only
    rw [spread col (Nat.lt_trans below inside), if_pos below]
    rfl
  earlier := earlier
  current := by simp
  entry := by simp
  pivot := rfl

structure Sweep.Holds (sweep : Sweep α) (plan : Plan) (settings : Settings α)
    (matrix : Array α) (numbers : Numbers α) (count : Nat) : Prop where
  work : sweep.work = .replicate plan.size 0
  lower_size : sweep.lower.size = plan.factorCount
  diagonal_size : sweep.diagonal.size = plan.size
  inverse_size : sweep.inverse.size = plan.size
  lower : ∀ row col : Nat, row < count → col ∈ plan.rowColumns row →
    sweep.lower[factorSlot plan.rowLists col row]? =
      some (numbers.multiplier row col)
  diagonal : ∀ k : Nat, k < count →
    sweep.diagonal[k]? = some (numbers.pivot k).kept
  inverse : ∀ k : Nat, k < count →
    sweep.inverse[k]? = some (1 / (numbers.pivot k).kept)
  pivots : sweep.pivots = ((List.range count).map numbers.pivot).reverse
  solves : numbers.Solves plan settings matrix count

variable {settings : Settings α} {matrix : Array α} {numbers : Numbers α}
  {row : Nat}

theorem RowState.Holds.work_eq {state : RowState α} {shifted : α}
    (holds : state.Holds plan matrix numbers row (plan.rowColumns row)
      shifted) : state.work = .replicate plan.size 0 := by
  apply Array.ext_getElem?
  intro col
  by_cases inside : col < plan.size
  · rw [holds.cleared col inside (by simp [Classical.em, or_comm])]
    simp [inside]
  · have outside := Nat.le_of_not_lt inside
    rw [Array.getElem?_eq_none (by rwa [holds.work_size]),
      Array.getElem?_eq_none (by simpa using outside)]

theorem Numbers.Solves.next (regular : plan.Regular pattern signs)
    {numbers' : Numbers α} {state : RowState α} {sign : Sign}
    (solves : numbers.Solves plan settings matrix row)
    (signed : plan.signs[row]? = some sign)
    (holds : state.Holds plan matrix numbers' row (plan.rowColumns row)
      (plan.valueAt matrix row row + sign.value * settings.staticReg))
    (pivot : numbers'.pivot = numbers.pivot)
    (entry : ∀ i, i ≠ row → numbers'.entry i = numbers.entry i) :
    (numbers'.setPivot row (.regularize settings sign state.pivot)).Solves
      plan settings matrix (row + 1) := by
  let final := numbers'.setPivot row (.regularize settings sign state.pivot)
  have before : final.Solves plan settings matrix row := by
    apply solves.congr regular
    · intro i below
      exact entry i (Nat.ne_of_lt below)
    · intro i below
      rw [Numbers.pivot_setPivot_of_ne (Nat.ne_of_lt below), pivot]
  have absent : row ∉ plan.rowColumns row := fun member =>
    Nat.lt_irrefl _ (regular.lt_of_mem member).1
  constructor
  · intro i col inside member
    rcases Nat.lt_succ_iff_lt_or_eq.mp inside with below | rfl
    · exact before.entry i col below member
    · rw [Numbers.reduce_setPivot fun old => absent (Plan.mem_within.mp old).1]
      exact holds.entry col member
  · intro i sign' inside signed'
    rcases Nat.lt_succ_iff_lt_or_eq.mp inside with below | rfl
    · exact before.pivot i sign' below signed'
    · obtain rfl : sign = sign' := Option.some.inj (signed.symm.trans signed')
      rw [Numbers.pivot_setPivot_self, Numbers.reduce_setPivot absent,
        holds.pivot]

theorem Sweep.Holds.next (regular : plan.Regular pattern signs)
    {sweep : Sweep α} {state : RowState α} {sign : Sign}
    {numbers' : Numbers α} (inside : row < plan.size)
    (holds : sweep.Holds plan settings matrix numbers row)
    (signed : plan.signs[row]? = some sign)
    (final : state.Holds plan matrix numbers' row (plan.rowColumns row)
      (plan.valueAt matrix row row + sign.value * settings.staticReg))
    (pivot : numbers'.pivot = numbers.pivot)
    (entry : ∀ i, i ≠ row → numbers'.entry i = numbers.entry i) :
    Sweep.Holds ⟨state.work, state.lower,
      sweep.diagonal.setIfInBounds row
        (Pivot.regularize settings sign state.pivot).kept,
      sweep.inverse.setIfInBounds row
        (1 / (Pivot.regularize settings sign state.pivot).kept),
      Pivot.regularize settings sign state.pivot :: sweep.pivots⟩
      plan settings matrix
      (numbers'.setPivot row (.regularize settings sign state.pivot))
      (row + 1) where
  work := final.work_eq
  lower_size := final.lower_size
  diagonal_size := by simpa using holds.diagonal_size
  inverse_size := by simpa using holds.inverse_size
  lower := by
    intro i col inside member
    have below := (regular.lt_of_mem member).1
    rw [Numbers.multiplier_setPivot_of_ne
      (Nat.ne_of_lt (Nat.lt_of_lt_of_le below (Nat.le_of_lt_succ inside)))]
    rcases Nat.lt_succ_iff_lt_or_eq.mp inside with earlier | rfl
    · exact final.earlier i col earlier member
    · exact final.current col member
  diagonal := by
    intro k small
    rcases Nat.lt_succ_iff_lt_or_eq.mp small with below | rfl
    · dsimp only
      rw [Array.getElem?_setIfInBounds_ne (Nat.ne_of_gt below),
        Numbers.pivot_setPivot_of_ne (Nat.ne_of_lt below), pivot]
      exact holds.diagonal k below
    · dsimp only
      rw [Array.getElem?_setIfInBounds_self_of_lt
        (by rwa [holds.diagonal_size]), Numbers.pivot_setPivot_self]
  inverse := by
    intro k small
    rcases Nat.lt_succ_iff_lt_or_eq.mp small with below | rfl
    · dsimp only
      rw [Array.getElem?_setIfInBounds_ne (Nat.ne_of_gt below),
        Numbers.pivot_setPivot_of_ne (Nat.ne_of_lt below), pivot]
      exact holds.inverse k below
    · dsimp only
      rw [Array.getElem?_setIfInBounds_self_of_lt
        (by rwa [holds.inverse_size]), Numbers.pivot_setPivot_self]
  pivots := by
    have earlier : (List.range row).map (numbers'.setPivot row
        (.regularize settings sign state.pivot)).pivot =
        (List.range row).map numbers.pivot := by
      apply List.map_congr_left
      intro k member
      rw [Numbers.pivot_setPivot_of_ne
        (Nat.ne_of_lt (List.mem_range.mp member)), pivot]
    rw [List.range_succ, List.map_append, earlier, holds.pivots]
    simp
  solves := holds.solves.next regular signed final pivot entry

theorem Sweep.row_runs (regular : plan.Regular pattern signs)
    {sweep : Sweep α} (inside : row < plan.size)
    (matrix_size : matrix.size = plan.matrixCount)
    (holds : sweep.Holds plan settings matrix numbers row) :
    ∃ next numbers', Sweep.row Checked plan settings matrix sweep row = .ok next ∧
      next.Holds plan settings matrix numbers' (row + 1) := by
  have moved := regular.relabels.wellFormed
  dsimp only at moved
  obtain ⟨first, last, start, start', diagonal, slots⟩ :=
    moved.exists_slots inside
  have insideMatrix : last < matrix.size := by
    rw [matrix_size, Plan.matrixCount, ← moved.length_entries]
    exact (List.getElem?_eq_some_iff.mp diagonal).1
  have held := Array.getElem?_eq_getElem insideMatrix
  have onDiagonal : plan.valueAt matrix row row = matrix[last] :=
    Plan.valueAt_of_entry regular (by simpa using diagonal) held
  obtain ⟨sign, signed⟩ : ∃ sign, plan.signs[row]? = some sign :=
    ⟨_, Array.getElem?_eq_getElem (by
      rwa [regular.signs_size, ← regular.size_eq])⟩
  obtain ⟨work, spreads, work_size, spread⟩ :=
    spreadRow_runs regular inside matrix_size slots
  have initial : RowState.Holds ⟨work, sweep.lower,
      plan.valueAt matrix row row + sign.value * settings.staticReg⟩
      plan matrix numbers row []
      (plan.valueAt matrix row row + sign.value * settings.staticReg) :=
    RowState.holds_spread regular work_size holds.lower_size spread holds.lower
  obtain ⟨state, numbers', steps, final, pivot, entry⟩ :=
    RowState.foldlM_step_runs regular initial holds.inverse
  have insideDiagonal : row < sweep.diagonal.size := by
    rwa [holds.diagonal_size]
  have insideInverse : row < sweep.inverse.size := by
    rwa [holds.inverse_size]
  have slot : plan.diagonalSlot row = .ok last := by
    rw [Plan.diagonalSlot, Checked.get_eq_ok_iff.mpr start', Checked.ok_bind]
    exact Checked.sub_eq_ok (Nat.succ_le_succ (Nat.zero_le _))
  refine ⟨_, _, ?_, holds.next regular inside signed final pivot entry⟩
  rw [onDiagonal] at steps
  simp only [Sweep.row, Checked.liftM_eq]
  rw [slot, Checked.ok_bind, Checked.get_eq_ok_iff.mpr start, Checked.ok_bind,
    holds.work, spreads, Checked.ok_bind, Checked.get_eq_ok_iff.mpr signed,
    Checked.ok_bind, Checked.get_eq_ok_iff.mpr held, Checked.ok_bind,
    regular.steps_eq inside, Checked.ok_bind, steps, Checked.ok_bind,
    Checked.set_eq_ok_iff.mpr ⟨insideDiagonal, rfl⟩, Checked.ok_bind,
    Checked.set_eq_ok_iff.mpr ⟨insideInverse, rfl⟩]
  rfl

theorem Sweep.all_runs (regular : plan.Regular pattern signs)
    {sweep : Sweep α} (matrix_size : matrix.size = plan.matrixCount)
    (holds : sweep.Holds plan settings matrix numbers 0) :
    ∃ final numbers', Sweep.all Checked plan settings matrix sweep = .ok final ∧
      final.Holds plan settings matrix numbers' plan.size := by
  obtain ⟨final, ran, numbers', holds⟩ :=
    @Checked.foldlM_range_runs _ _ (Sweep.row Checked plan settings matrix) plan.size
      (fun count sweep => ∃ numbers', Sweep.Holds sweep plan settings matrix
        numbers' count)
      sweep ⟨numbers, holds⟩
      (by
        rintro row sweep inside ⟨numbers', holds⟩
        obtain ⟨next, numbers'', ran, holds⟩ :=
          row_runs regular inside matrix_size holds
        exact ⟨next, ran, numbers'', holds⟩)
  exact ⟨final, numbers', ran, holds⟩

namespace Factor

section Kernel

variable {m : Type → Type} [Monad m] [MonadLiftT Checked m] [Reducing m]
  {settings : Settings α} {values : Array α} {factor : Factor α}

/-- The reply to values that are factored to the end. -/
def finish (settings : Settings α) (matrix : Array α) (sweep : Sweep α) :
    Reply α (Factor α) (Summary α) :=
  let pivots := sweep.pivots.reverse
  let summary := Summary.ofPivots settings pivots
  ⟨.ok summary,
    ⟨matrix, sweep.lower, sweep.diagonal, sweep.inverse, sweep.work, summary,
      true⟩,
    summary.events pivots⟩

theorem factorizeIn_of_misfit (misfit : plan.matrixCount ≠ values.size) :
    factorizeIn m plan settings values factor = pure (.refuse factor
      (.dimension .factorizeValues plan.matrixCount values.size)) := by
  rw [factorizeIn, if_pos misfit]

theorem factorizeIn_of_rejected (count : plan.matrixCount = values.size)
    {slot : Nat} (found : rejected settings values = some slot) :
    factorizeIn m plan settings values factor =
      pure (.refuse { factor with ready := false } (.nonFinite slot)) := by
  rw [factorizeIn, if_neg (not_not_intro count), found]

theorem factorizeIn_of_accepted (count : plan.matrixCount = values.size)
    (accepted : rejected settings values = none) :
    factorizeIn m plan settings values factor = do
      let matrix ← loadMatrix plan values factor.matrix
      let sweep ← Sweep.all m plan settings matrix
        ⟨factor.work, factor.lower, factor.diagonal, factor.inverse, []⟩
      return finish settings matrix sweep := by
  rw [factorizeIn, if_neg (not_not_intro count), accepted]
  rfl

theorem factorize_of_misfit (misfit : plan.matrixCount ≠ values.size) :
    factorize plan settings values factor = .ok (.refuse factor
      (.dimension .factorizeValues plan.matrixCount values.size)) :=
  factorizeIn_of_misfit misfit

theorem factorize_of_rejected (count : plan.matrixCount = values.size)
    {slot : Nat} (found : rejected settings values = some slot) :
    factorize plan settings values factor =
      .ok (.refuse { factor with ready := false } (.nonFinite slot)) :=
  factorizeIn_of_rejected count found

theorem factorize_of_accepted (count : plan.matrixCount = values.size)
    (accepted : rejected settings values = none) :
    factorize plan settings values factor = (do
      let matrix ← loadMatrix plan values factor.matrix
      let sweep ← Sweep.all Checked plan settings matrix
        ⟨factor.work, factor.lower, factor.diagonal, factor.inverse, []⟩
      return finish settings matrix sweep) :=
  factorizeIn_of_accepted count accepted

end Kernel

/-- The arrays have their sizes, and the work array is zero. -/
structure Fits (factor : Factor α) (plan : Plan) : Prop where
  matrix_size : factor.matrix.size = plan.matrixCount
  lower_size : factor.lower.size = plan.factorCount
  diagonal_size : factor.diagonal.size = plan.size
  inverse_size : factor.inverse.size = plan.size
  work : factor.work = .replicate plan.size 0

theorem fits_fresh : (fresh plan : Factor α).Fits plan where
  matrix_size := by simp [fresh]
  lower_size := by simp [fresh]
  diagonal_size := by simp [fresh]
  inverse_size := by simp [fresh]
  work := rfl

def pivotsOf (plan : Plan) (numbers : Numbers α) : List (Pivot α) :=
  (List.range plan.size).map numbers.pivot

/-- The factorization of the matrix with the given values. -/
structure Holds (factor : Factor α) (plan : Plan) (settings : Settings α)
    (values : Array α) (numbers : Numbers α) : Prop where
  fits : factor.Fits plan
  matrix : ∀ slot slot' : Nat, plan.slot[slot]? = some slot' →
    factor.matrix[slot']? = values[slot]?
  lower : ∀ row col : Nat, col ∈ plan.rowColumns row →
    factor.lower[factorSlot plan.rowLists col row]? =
      some (numbers.multiplier row col)
  diagonal : ∀ k : Nat, k < plan.size →
    factor.diagonal[k]? = some (numbers.pivot k).kept
  inverse : ∀ k : Nat, k < plan.size →
    factor.inverse[k]? = some (1 / (numbers.pivot k).kept)
  summary : factor.summary = .ofPivots settings (pivotsOf plan numbers)
  ready : factor.ready = true
  solves : numbers.Solves plan settings factor.matrix plan.size

theorem factorize_runs (regular : plan.Regular pattern signs)
    {factor : Factor α} {values : Array α} (fits : factor.Fits plan)
    (values_size : values.size = plan.matrixCount)
    (accepted : rejected settings values = none) :
    ∃ new numbers, factorize plan settings values factor =
        .ok ⟨.ok new.summary, new,
          new.summary.events (pivotsOf plan numbers)⟩ ∧
      new.Holds plan settings values numbers := by
  obtain ⟨matrix, loads, matrix_size, loaded⟩ :=
    loadMatrix_runs regular values_size fits.matrix_size
  have initial : Sweep.Holds
      ⟨factor.work, factor.lower, factor.diagonal, factor.inverse, []⟩
      plan settings matrix ⟨fun _ _ => 0, fun _ => ⟨0, 0, false⟩⟩ 0 := by
    refine ⟨fits.work, fits.lower_size, fits.diagonal_size, fits.inverse_size,
      ?_, ?_, ?_, rfl, ?_, ?_⟩ <;> intros <;> omega
  obtain ⟨sweep, numbers, sweeps, final⟩ :=
    Sweep.all_runs regular matrix_size initial
  have pivots : sweep.pivots.reverse = pivotsOf plan numbers := by
    rw [final.pivots, List.reverse_reverse, pivotsOf]
  have inside : ∀ {row col : Nat}, col ∈ plan.rowColumns row →
      row < plan.size := fun member => (regular.lt_of_mem member).2
  let new : Factor α :=
    ⟨matrix, sweep.lower, sweep.diagonal, sweep.inverse, sweep.work,
      .ofPivots settings (pivotsOf plan numbers), true⟩
  refine ⟨new, numbers, ?_, ⟨⟨matrix_size, final.lower_size,
    final.diagonal_size, final.inverse_size, final.work⟩, loaded,
    fun row col member => final.lower row col (inside member) member,
    final.diagonal, final.inverse, rfl, rfl, final.solves⟩⟩
  rw [factorize_of_accepted values_size.symm accepted, loads, Checked.ok_bind,
    sweeps, Checked.ok_bind, finish, pivots]
  rfl

variable {factor factor' : Factor α} {numbers' : Numbers α}
  {values : Array α}

theorem Holds.matrix_eq (regular : plan.Regular pattern signs)
    (holds : factor.Holds plan settings values numbers)
    (holds' : factor'.Holds plan settings values numbers') :
    factor.matrix = factor'.matrix :=
  Plan.matrix_ext regular holds.fits.matrix_size holds'.fits.matrix_size
    holds.matrix holds'.matrix

theorem Holds.agree (regular : plan.Regular pattern signs)
    (holds : factor.Holds plan settings values numbers)
    (holds' : factor'.Holds plan settings values numbers') :
    ∀ row, row < plan.size → Numbers.AgreeIn plan numbers numbers' row :=
  holds.solves.unique regular
    (holds.matrix_eq regular holds' ▸ holds'.solves)

theorem Holds.pivots_eq (regular : plan.Regular pattern signs)
    (holds : factor.Holds plan settings values numbers)
    (holds' : factor'.Holds plan settings values numbers') :
    pivotsOf plan numbers = pivotsOf plan numbers' := by
  apply List.map_congr_left
  intro row member
  exact (holds.agree regular holds' row (List.mem_range.mp member)).1

theorem Holds.lower_eq (regular : plan.Regular pattern signs)
    (holds : factor.Holds plan settings values numbers)
    (holds' : factor'.Holds plan settings values numbers') :
    factor.lower = factor'.lower := by
  have agree := holds.agree regular holds'
  apply Array.ext_getElem?
  intro slot
  by_cases inside : slot < plan.factorCount
  · obtain ⟨col, row, member, rfl⟩ := regular.exists_factorSlot inside
    obtain ⟨below, insideRow⟩ := regular.lt_of_mem member
    rw [holds.lower row col member, holds'.lower row col member,
      Numbers.multiplier_congr ((agree row insideRow).2 col member)
        (agree col (Nat.lt_trans below insideRow)).1]
  · have outside := Nat.le_of_not_lt inside
    rw [Array.getElem?_eq_none (by rwa [holds.fits.lower_size]),
      Array.getElem?_eq_none (by rwa [holds'.fits.lower_size])]

theorem Holds.unique (regular : plan.Regular pattern signs)
    (holds : factor.Holds plan settings values numbers)
    (holds' : factor'.Holds plan settings values numbers') :
    factor = factor' := by
  have agree := holds.agree regular holds'
  have diagonal : factor.diagonal = factor'.diagonal := by
    refine Checked.ext_of_size holds.fits.diagonal_size
      holds'.fits.diagonal_size fun k inside => ?_
    rw [holds.diagonal k inside, holds'.diagonal k inside, (agree k inside).1]
  have inverse : factor.inverse = factor'.inverse := by
    refine Checked.ext_of_size holds.fits.inverse_size holds'.fits.inverse_size
      fun k inside => ?_
    rw [holds.inverse k inside, holds'.inverse k inside, (agree k inside).1]
  have matrix := holds.matrix_eq regular holds'
  have lower := holds.lower_eq regular holds'
  have work := holds.fits.work.trans holds'.fits.work.symm
  have summary : factor.summary = factor'.summary := by
    rw [holds.summary, holds'.summary, holds.pivots_eq regular holds']
  have ready := holds.ready.trans holds'.ready.symm
  cases factor
  cases factor'
  congr

end Factor

end QuasiDefinite
