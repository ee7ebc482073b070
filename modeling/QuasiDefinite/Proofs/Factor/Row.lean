import QuasiDefinite.Proofs.Factor.Numbers

namespace QuasiDefinite

open Elimination Compressed

variable {α : Type} [Scalar α] {plan : Plan} {pattern : Pattern}
  {signs : Array Sign}

theorem reduceWork_eq (lower : Array α) (entry : α) (first last : Nat)
    (work : Array α) :
    reduceWork Checked plan lower entry first last work =
      (span first last).foldlM
        (fun work slot => do
          let row ← Checked.get plan.lower.index slot
          let value ← Checked.get lower slot
          Checked.modify work row (· - value * entry))
        work := by
  simp only [Checked.modify_eq_bind]
  rfl

theorem reduceWork_runs (regular : plan.Regular pattern signs)
    {work lower : Array α} {row col : Nat} {entry : α} {value : Nat → α}
    (size_eq : work.size = plan.size)
    (stored : ∀ i ∈ rowsBefore plan.rowLists row col,
      lower[factorSlot plan.rowLists col i]? = some (value i)) :
    ∃ new, reduceWork Checked plan lower entry
        (base (columnLists plan.rowLists) col)
        (factorSlot plan.rowLists col row) work = .ok new ∧
      new.size = plan.size ∧ ∀ i : Nat, new[i]? =
        if i ∈ rowsBefore plan.rowLists row col
        then work[i]?.map (· - value i * entry) else work[i]? := by
  have nodup : (rowsBefore plan.rowLists row col).Nodup :=
    pairwise_rowsBefore.imp Nat.ne_of_lt
  rw [reduceWork_eq, ← map_factorSlot, List.foldlM_map]
  refine Checked.foldlM_runs (fun done (new : Array α) => new.size = plan.size ∧
    ∀ i : Nat, new[i]? = if i ∈ done
      then work[i]?.map (· - value i * entry) else work[i]?)
    ⟨size_eq, by simp⟩ ?_
  rintro done i rest new split ⟨size_eq, reduced⟩
  have member : i ∈ rowsBefore plan.rowLists row col := by simp [split]
  have fresh : i ∉ done := by
    rw [split, List.nodup_append] at nodup
    exact fun old => nodup.2.2 i old i (List.mem_cons_self ..) rfl
  obtain ⟨_, inRow⟩ := mem_rowsBefore.mp member
  have insideNew : i < new.size := by
    rw [size_eq]
    exact (regular.lt_of_mem inRow).2
  rw [Checked.get_eq_ok_iff.mpr (regular.index_lower inRow), Checked.ok_bind,
    Checked.get_eq_ok_iff.mpr (stored i member), Checked.ok_bind]
  refine ⟨_, Checked.modify_eq_ok_iff.mpr ⟨insideNew, rfl⟩,
    by simpa using size_eq, fun other => ?_⟩
  rw [Array.getElem?_modify, reduced other]
  by_cases same : i = other
  · subst same
    simp [fresh]
  · simp [same, Ne.symm same]

/-! The steps of a row. -/

namespace RowState

/-- Row `row` after the columns `done`. The columns to come hold what the ones
done have left of them, and every other place is zero. -/
structure Holds (state : RowState α) (plan : Plan) (matrix : Array α)
    (numbers : Numbers α) (row : Nat) (done : List Nat) (shifted : α) :
    Prop where
  work_size : state.work.size = plan.size
  lower_size : state.lower.size = plan.factorCount
  cleared : ∀ col : Nat, col < plan.size →
    col ∉ plan.rowColumns row ∨ col ∈ done → state.work[col]? = some 0
  waiting : ∀ col : Nat, col ∈ plan.rowColumns row → col ∉ done →
    state.work[col]? = some (numbers.reduce row col
      (plan.valueAt matrix col row) (plan.within done col))
  earlier : ∀ i col : Nat, i < row → col ∈ plan.rowColumns i →
    state.lower[factorSlot plan.rowLists col i]? =
      some (numbers.multiplier i col)
  current : ∀ col ∈ done, state.lower[factorSlot plan.rowLists col row]? =
    some (numbers.multiplier row col)
  entry : ∀ col ∈ done, numbers.entry row col = numbers.reduce row col
    (plan.valueAt matrix col row) (plan.within (plan.rowColumns row) col)
  pivot : state.pivot = numbers.reduce row row shifted done

variable {state : RowState α} {matrix inverse : Array α}
  {numbers : Numbers α} {row col : Nat} {done rest : List Nat} {shifted : α}

theorem lt_of_split (regular : plan.Regular pattern signs)
    (split : plan.rowColumns row = done ++ col :: rest) :
    (∀ via ∈ done, via < col) ∧ ∀ via ∈ rest, col < via := by
  have ascending := @Plan.Regular.pairwise_rowColumns _ _ _ row regular
  rw [split, List.pairwise_append, List.pairwise_cons] at ascending
  obtain ⟨_, ⟨later, _⟩, before⟩ := ascending
  exact ⟨fun via old => before via old col (List.mem_cons_self ..), later⟩

/-- The work array after column `col`, whose multiple `entry` was taken from
the rows that have an entry there. -/
def Reduced (plan : Plan) (numbers : Numbers α) (row col : Nat) (entry : α)
    (work new : Array α) : Prop :=
  ∀ i : Nat, new[i]? = if i ∈ rowsBefore plan.rowLists row col
    then (work.setIfInBounds col 0)[i]?.map
      (· - numbers.multiplier i col * entry)
    else (work.setIfInBounds col 0)[i]?

/-- Places outside the columns to come stay zero: a row that meets `row` in
column `col` is a column of `row` itself. -/
theorem Holds.cleared_next (regular : plan.Regular pattern signs)
    (split : plan.rowColumns row = done ++ col :: rest)
    (holds : state.Holds plan matrix numbers row done shifted)
    {entry : α} {new : Array α}
    (reduced : Reduced plan numbers row col entry state.work new)
    {other : Nat} (inside : other < plan.size)
    (outside : other ∉ plan.rowColumns row ∨ other ∈ done ++ [col]) :
    new[other]? = some 0 := by
  have member : col ∈ plan.rowColumns row := by simp [split]
  have untouched : other ∉ rowsBefore plan.rowLists row col := by
    intro touched
    obtain ⟨below, inRow⟩ := mem_rowsBefore.mp touched
    have above := (regular.lt_of_mem inRow).1
    rcases outside with absent | old
    · exact absent (regular.mem_of_mem inRow member below)
    · rcases List.mem_append.mp old with old | last
      · exact Nat.lt_asymm above ((lt_of_split regular split).1 other old)
      · exact absurd (List.mem_singleton.mp last) (Nat.ne_of_gt above)
  rw [reduced other, if_neg untouched, Array.getElem?_setIfInBounds]
  by_cases same : col = other
  · rw [if_pos same, if_pos (by rwa [holds.work_size, same])]
  · rw [if_neg same]
    apply holds.cleared other inside
    simpa [Ne.symm same] using outside

theorem Holds.waiting_next (regular : plan.Regular pattern signs)
    (split : plan.rowColumns row = done ++ col :: rest)
    (holds : state.Holds plan matrix numbers row done shifted)
    {entry : α} {new : Array α}
    (reduced : Reduced plan numbers row col entry state.work new)
    {other : Nat} (member : other ∈ plan.rowColumns row)
    (fresh : other ∉ done ++ [col]) :
    new[other]? = some ((numbers.setEntry row col entry).reduce row other
      (plan.valueAt matrix other row) (plan.within (done ++ [col]) other)) := by
  rw [List.mem_append, List.mem_singleton, not_or] at fresh
  obtain ⟨fresh, differs⟩ := fresh
  have absent : col ∉ done := fun old =>
    Nat.lt_irrefl _ ((lt_of_split regular split).1 col old)
  have below := (regular.lt_of_mem member).1
  have kept : (numbers.setEntry row col entry).reduce row other
      (plan.valueAt matrix other row) (plan.within done other) =
      numbers.reduce row other (plan.valueAt matrix other row)
        (plan.within done other) :=
    Numbers.reduce_setEntry fun _ old => absent (Plan.mem_within.mp old).1
  rw [reduced other, Array.getElem?_setIfInBounds_ne (Ne.symm differs),
    holds.waiting other member fresh]
  by_cases inRow : col ∈ plan.rowColumns other
  · rw [if_pos (mem_rowsBefore.mpr ⟨below, inRow⟩),
      Plan.within_append_of_mem inRow, Numbers.reduce_append, kept,
      Numbers.entry_setEntry_self,
      Numbers.multiplier_setEntry_of_ne fun same =>
        absurd same (Nat.ne_of_lt below)]
    rfl
  · rw [if_neg fun touched => inRow (mem_rowsBefore.mp touched).2,
      Plan.within_append_of_notMem inRow, kept]

theorem mem_of_split (split : plan.rowColumns row = done ++ col :: rest)
    {other : Nat} (member : other ∈ done ++ [col]) :
    other ∈ plan.rowColumns row := by
  rw [split]
  simpa [or_assoc] using List.mem_append_left rest member

theorem multiplier_setEntry_self {entry : α} :
    (numbers.setEntry row col entry).multiplier row col =
      entry * (1 / (numbers.pivot col).kept) := by
  rw [Numbers.multiplier, Numbers.entry_setEntry_self, Numbers.pivot_setEntry]

theorem Holds.current_next (regular : plan.Regular pattern signs)
    (split : plan.rowColumns row = done ++ col :: rest)
    (holds : state.Holds plan matrix numbers row done shifted) {entry : α}
    {other : Nat} (member : other ∈ done ++ [col]) :
    (state.lower.setIfInBounds (factorSlot plan.rowLists col row)
        (entry * (1 / (numbers.pivot col).kept)))[
          factorSlot plan.rowLists other row]? =
      some ((numbers.setEntry row col entry).multiplier row other) := by
  have inRow : col ∈ plan.rowColumns row := by simp [split]
  cases List.mem_append.mp member with
  | inl old =>
      have differs : other ≠ col :=
        Nat.ne_of_lt ((lt_of_split regular split).1 other old)
      rw [Array.getElem?_setIfInBounds_ne fun same => differs
          (regular.factorSlot_injective inRow (mem_of_split split member)
            same).1.symm,
        holds.current other old,
        Numbers.multiplier_setEntry_of_ne fun _ => differs]
  | inr last =>
      rw [List.mem_singleton.mp last, multiplier_setEntry_self]
      apply Array.getElem?_setIfInBounds_self_of_lt
      rw [holds.lower_size]
      exact regular.factorSlot_lt inRow

theorem Holds.entry_next (regular : plan.Regular pattern signs)
    (split : plan.rowColumns row = done ++ col :: rest)
    (holds : state.Holds plan matrix numbers row done shifted) {entry : α}
    (waiting : state.work[col]? = some entry) {other : Nat}
    (member : other ∈ done ++ [col]) :
    (numbers.setEntry row col entry).entry row other =
      (numbers.setEntry row col entry).reduce row other
        (plan.valueAt matrix other row)
        (plan.within (plan.rowColumns row) other) := by
  obtain ⟨before, _⟩ := lt_of_split regular split
  have absent : col ∉ plan.within (plan.rowColumns row) other := by
    intro inside
    have below := (regular.lt_of_mem (Plan.mem_within.mp inside).2).1
    cases List.mem_append.mp member with
    | inl old => exact Nat.lt_asymm below (before other old)
    | inr last => exact Nat.ne_of_lt below (List.mem_singleton.mp last).symm
  rw [Numbers.reduce_setEntry fun _ => absent]
  cases List.mem_append.mp member with
  | inl old =>
      rw [Numbers.entry_setEntry_of_ne
        fun _ => Nat.ne_of_lt (before other old), holds.entry other old]
  | inr last =>
      have fresh : col ∉ done := fun old => Nat.lt_irrefl _ (before col old)
      rw [List.mem_singleton.mp last, Numbers.entry_setEntry_self,
        Plan.within_of_split regular split]
      rw [holds.waiting col (by simp [split]) fresh, Option.some.injEq]
        at waiting
      exact waiting.symm

theorem Holds.next (regular : plan.Regular pattern signs)
    (split : plan.rowColumns row = done ++ col :: rest)
    (holds : state.Holds plan matrix numbers row done shifted) {entry : α}
    (waiting : state.work[col]? = some entry) {new : Array α}
    (new_size : new.size = plan.size)
    (reduced : Reduced plan numbers row col entry state.work new) :
    Holds ⟨new, state.lower.setIfInBounds (factorSlot plan.rowLists col row)
        (entry * (1 / (numbers.pivot col).kept)),
      state.pivot - entry * (1 / (numbers.pivot col).kept) * entry⟩
      plan matrix (numbers.setEntry row col entry) row (done ++ [col])
      shifted where
  work_size := new_size
  lower_size := by simpa using holds.lower_size
  cleared _ inside outside :=
    holds.cleared_next regular split reduced inside outside
  waiting _ member fresh :=
    holds.waiting_next regular split reduced member fresh
  earlier := by
    intro i other below inRow
    have member : col ∈ plan.rowColumns row := by simp [split]
    dsimp only
    rw [Array.getElem?_setIfInBounds_ne fun same => Nat.ne_of_gt below
        (regular.factorSlot_injective member inRow same).2,
      holds.earlier i other below inRow,
      Numbers.multiplier_setEntry_of_ne fun same =>
        absurd same (Nat.ne_of_lt below)]
  current _ member := holds.current_next regular split member
  entry _ member := holds.entry_next regular split waiting member
  pivot := by
    have fresh : col ∉ done := fun old =>
      Nat.lt_irrefl _ ((lt_of_split regular split).1 col old)
    dsimp only
    rw [Numbers.reduce_append, Numbers.reduce_setEntry fun _ => fresh,
      holds.pivot, multiplier_setEntry_self, Numbers.entry_setEntry_self]

theorem step_runs (regular : plan.Regular pattern signs)
    (split : plan.rowColumns row = done ++ col :: rest)
    (holds : state.Holds plan matrix numbers row done shifted)
    (inverted : ∀ k : Nat, k < row →
      inverse[k]? = some (1 / (numbers.pivot k).kept)) :
    ∃ next value, RowState.step Checked plan inverse state
        ⟨col, factorSlot plan.rowLists col row⟩ = .ok next ∧
      next.Holds plan matrix (numbers.setEntry row col value) row
        (done ++ [col]) shifted := by
  have member : col ∈ plan.rowColumns row := by simp [split]
  obtain ⟨below, insideRow⟩ := regular.lt_of_mem member
  have inside := Nat.lt_trans below insideRow
  have fresh : col ∉ done := fun old =>
    Nat.lt_irrefl _ ((lt_of_split regular split).1 col old)
  obtain ⟨entry, waiting⟩ : ∃ entry, state.work[col]? = some entry :=
    ⟨_, holds.waiting col member fresh⟩
  have insideWork : col < state.work.size := by rwa [holds.work_size]
  have insideLower : factorSlot plan.rowLists col row < state.lower.size := by
    rw [holds.lower_size]
    exact regular.factorSlot_lt member
  obtain ⟨new, ran, new_size, reduced⟩ : ∃ new,
      reduceWork Checked plan state.lower entry
        (base (columnLists plan.rowLists) col)
        (factorSlot plan.rowLists col row) (state.work.setIfInBounds col 0) =
        .ok new ∧ new.size = plan.size ∧
      Reduced plan numbers row col entry state.work new :=
    reduceWork_runs regular (by simpa using holds.work_size)
      fun i earlier => holds.earlier i col (mem_rowsBefore.mp earlier).1
        (mem_rowsBefore.mp earlier).2
  refine ⟨_, _, ?_, holds.next regular split waiting new_size reduced⟩
  simp only [RowState.step, Checked.liftM_eq]
  rw [Checked.get_eq_ok_iff.mpr waiting, Checked.ok_bind,
    Checked.set_eq_ok_iff.mpr ⟨insideWork, rfl⟩, Checked.ok_bind,
    Checked.get_eq_ok_iff.mpr (regular.start_lower (Nat.le_of_lt inside)),
    Checked.ok_bind, ran, Checked.ok_bind,
    Checked.get_eq_ok_iff.mpr (inverted col below), Checked.ok_bind,
    Checked.set_eq_ok_iff.mpr ⟨insideLower, rfl⟩]
  rfl

theorem foldlM_step_runs (regular : plan.Regular pattern signs)
    (holds : state.Holds plan matrix numbers row [] shifted)
    (inverted : ∀ k : Nat, k < row →
      inverse[k]? = some (1 / (numbers.pivot k).kept)) :
    ∃ final numbers', (stepsOf plan.rowLists row).foldlM
        (RowState.step Checked plan inverse) state = .ok final ∧
      final.Holds plan matrix numbers' row (plan.rowColumns row) shifted ∧
      numbers'.pivot = numbers.pivot ∧
      ∀ i, i ≠ row → numbers'.entry i = numbers.entry i := by
  rw [stepsOf, List.foldlM_map]
  obtain ⟨final, ran, numbers', holds, pivot, entry⟩ :=
    @Checked.foldlM_runs _ _ _
      (fun state col => RowState.step Checked plan inverse state
        ⟨col, factorSlot plan.rowLists col row⟩)
      (plan.rowColumns row)
      (fun done state => ∃ numbers' : Numbers α,
        state.Holds plan matrix numbers' row done shifted ∧
        numbers'.pivot = numbers.pivot ∧
        ∀ i, i ≠ row → numbers'.entry i = numbers.entry i)
      state ⟨numbers, holds, rfl, fun _ _ => rfl⟩
      (by
        rintro done col rest state split ⟨numbers', holds, pivot, entry⟩
        obtain ⟨next, value, ran, holds⟩ := step_runs regular split holds
          fun k below => by rw [pivot]; exact inverted k below
        refine ⟨next, ran, _, holds, pivot, fun i other => ?_⟩
        rw [← entry i other]
        funext k
        exact Numbers.entry_setEntry_of_ne fun same => absurd same other)
  exact ⟨final, numbers', ran, holds, pivot, entry⟩

end RowState

end QuasiDefinite
