import QuasiDefinite.Proofs.Pattern.Constructed

namespace QuasiDefinite.Pattern

/-! What the arrays are to hold, told by the views of the pattern that would
adopt them. -/

/-- The starts enclose the rows: one for each column and one more, from zero to
the number of rows. -/
structure Encloses (size : Nat) (upper : Compressed) : Prop where
  length : upper.start.size = size + 1
  starts : first ⟨size, upper⟩ 0 = 0
  ends : first ⟨size, upper⟩ size = upper.index.size

structure Holds (size : Nat) (upper : Compressed) (col : Nat) : Prop where
  ascends : first ⟨size, upper⟩ col ≤ first ⟨size, upper⟩ (col + 1)
  inside : first ⟨size, upper⟩ (col + 1) ≤ upper.index.size
  isColumn : IsColumn col (column ⟨size, upper⟩ col)

structure Adoptable (size : Nat) (upper : Compressed) : Prop where
  encloses : Encloses size upper
  ascends : ∀ col, col < size →
    first ⟨size, upper⟩ col ≤ first ⟨size, upper⟩ (col + 1)
  isColumn : ∀ col, col < size → IsColumn col (column ⟨size, upper⟩ col)

/-- Column `col` ends past the rows, and nothing before it is amiss. -/
structure Overruns (size : Nat) (upper : Compressed) (col : Nat) : Prop where
  encloses : Encloses size upper
  inside : col < size
  before : ∀ earlier, earlier < col → Holds size upper earlier
  ascends : first ⟨size, upper⟩ col ≤ first ⟨size, upper⟩ (col + 1)
  past : upper.index.size < first ⟨size, upper⟩ (col + 1)

variable {size col : Nat} {upper : Compressed} {fault : Fault}

theorem get_start (length : upper.start.size = size + 1)
    (inside : col ≤ size) :
    Checked.get upper.start col = .ok (first ⟨size, upper⟩ col) := by
  have inside : col < upper.start.size := by
    rw [length]
    omega
  rw [Checked.get_eq_ok inside, first, ← Array.getElem_eq_getD]

/-- No start lies past the last one, so no column of a pattern is stored past
the end. -/
theorem Adoptable.first_le (adoptable : Adoptable size upper)
    (inside : col ≤ size) :
    first ⟨size, upper⟩ col ≤ upper.index.size := by
  rw [← adoptable.encloses.ends]
  induction inside using Nat.decreasingInduction with
  | self => exact Nat.le_refl _
  | of_succ col below ih => exact Nat.le_trans (adoptable.ascends col below) ih

theorem Adoptable.holds (adoptable : Adoptable size upper)
    (inside : col < size) : Holds size upper col where
  ascends := adoptable.ascends col inside
  inside := adoptable.first_le inside
  isColumn := adoptable.isColumn col inside

theorem adjacent_of_pairwise {rows : List Nat}
    (ascending : rows.Pairwise (· < ·)) :
    ∀ pair ∈ rows.zip rows.tail, pair.1 < pair.2 := by
  induction rows with
  | nil => simp
  | cons row rest ih =>
      cases rest with
      | nil => simp
      | cons next rest =>
          obtain ⟨below, ascending⟩ := List.pairwise_cons.mp ascending
          intro pair member
          cases member with
          | head => exact below next (List.mem_cons_self ..)
          | tail _ member => exact ih ascending pair member

theorem checkColumn_eq_ok_iff {rows : List Nat} :
    checkColumn col rows = .ok () ↔ IsColumn col rows := by
  constructor
  · exact isColumn_of_checkColumn
  · intro isColumn
    rw [checkColumn, if_neg]
    · dsimp only
      rw [isColumn.2]
      simp
    · intro descends
      obtain ⟨pair, member, le⟩ := List.any_eq_true.mp descends
      have below := adjacent_of_pairwise isColumn.1 pair member
      exact Nat.not_le_of_lt below (of_decide_eq_true le)

/-- The checks of a column come in this order, and its rows are read between
the first and the last of them. -/
theorem checkStored_eq (encloses : Encloses size upper) (inside : col < size) :
    checkStored upper col =
      if first ⟨size, upper⟩ (col + 1) < first ⟨size, upper⟩ col then
        .ok (.error (.startDecreases col))
      else if upper.index.size < first ⟨size, upper⟩ (col + 1) then
        .error (.outside (first ⟨size, upper⟩ (col + 1)) upper.index.size)
      else .ok (checkColumn col (column ⟨size, upper⟩ col)) := by
  rw [checkStored, get_start encloses.length (Nat.le_of_lt inside),
    Checked.ok_bind,
    get_start encloses.length inside, Checked.ok_bind]
  split
  · rfl
  · next ascends =>
    rw [Checked.slice, if_neg ascends]
    split <;> rfl

theorem checkStored_eq_ok_iff (encloses : Encloses size upper)
    (inside : col < size) :
    checkStored upper col = .ok (.ok ()) ↔ Holds size upper col := by
  rw [checkStored_eq encloses inside]
  constructor
  · intro passed
    split at passed
    · cases passed
    · next ascends =>
      split at passed
      · cases passed
      · next within =>
        exact ⟨Nat.le_of_not_lt ascends, Nat.le_of_not_lt within,
          checkColumn_eq_ok_iff.mp (Except.ok.inj passed)⟩
  · intro holds
    rw [if_neg (Nat.not_lt.mpr holds.ascends),
      if_neg (Nat.not_lt.mpr holds.inside),
      checkColumn_eq_ok_iff.mpr holds.isColumn]

theorem checkStored_eq_error_iff (encloses : Encloses size upper)
    (inside : col < size) :
    checkStored upper col = .error fault ↔
      first ⟨size, upper⟩ col ≤ first ⟨size, upper⟩ (col + 1) ∧
      upper.index.size < first ⟨size, upper⟩ (col + 1) ∧
      fault = .outside (first ⟨size, upper⟩ (col + 1)) upper.index.size := by
  rw [checkStored_eq encloses inside]
  constructor
  · intro faults
    split at faults
    · cases faults
    · next ascends =>
      split at faults
      · next past =>
        exact ⟨Nat.le_of_not_lt ascends, past, (Except.error.inj faults).symm⟩
      · cases faults
  · intro overrun
    obtain ⟨ascends, past, rfl⟩ := overrun
    rw [if_neg (Nat.not_lt.mpr ascends), if_pos past]

/-! All columns, up to the first that does not pass. -/

theorem checkAllStored_eq_ok_iff {cols : List Nat} :
    checkAllStored upper cols = .ok (.ok ()) ↔
      ∀ col ∈ cols, checkStored upper col = .ok (.ok ()) := by
  constructor
  · exact checkAllStored_mem
  · intro passed
    induction cols with
    | nil => rfl
    | cons col rest ih =>
        rw [checkAllStored, passed col (List.mem_cons_self ..), Checked.ok_bind]
        exact ih fun other member =>
          passed other (List.mem_cons_of_mem _ member)

theorem checkAllStored_eq_error_iff {cols : List Nat} :
    checkAllStored upper cols = .error fault ↔ ∃ done col rest,
      cols = done ++ col :: rest ∧
      (∀ earlier ∈ done, checkStored upper earlier = .ok (.ok ())) ∧
      checkStored upper col = .error fault := by
  induction cols with
  | nil =>
      constructor
      · intro faults
        cases faults
      · intro found
        obtain ⟨done, col, rest, split, _⟩ := found
        cases done <;> cases split
  | cons col cols ih =>
      rw [checkAllStored]
      constructor
      · intro faults
        cases checked : checkStored upper col with
        | error fault' =>
            rw [checked] at faults
            cases faults
            exact ⟨[], col, cols, rfl, by simp, checked⟩
        | ok answer =>
            rw [checked] at faults
            cases answer with
            | error flaw => cases faults
            | ok _ =>
                obtain ⟨done, col', rest, split, passed, faults⟩ :=
                  ih.mp faults
                refine ⟨col :: done, col', rest, by rw [split]; rfl, ?_,
                  faults⟩
                exact List.forall_mem_cons.mpr ⟨checked, passed⟩
      · intro found
        obtain ⟨done, col', rest, split, passed, faults⟩ := found
        cases done with
        | nil =>
            cases split
            rw [faults]
            rfl
        | cons _ done =>
            cases split
            obtain ⟨checked, passed⟩ := List.forall_mem_cons.mp passed
            rw [checked, Checked.ok_bind]
            exact ih.mpr ⟨done, col', rest, rfl, passed, faults⟩

theorem ofCompressed_of_encloses (encloses : Encloses size upper) :
    ofCompressed size upper = (do
      let answer ← checkAllStored upper (List.range size)
      return answer.map fun () => ⟨size, upper⟩) := by
  rw [ofCompressed, if_neg (not_not_intro encloses.length)]
  dsimp only
  rw [get_start encloses.length (Nat.zero_le _), Checked.ok_bind,
    get_start encloses.length (Nat.le_refl _), Checked.ok_bind,
    if_neg (by simp [encloses.starts, encloses.ends])]

theorem ofCompressed_of_not_encloses (amiss : ¬ Encloses size upper) :
    ∃ flaw, ofCompressed size upper = .ok (.error flaw) := by
  rw [ofCompressed]
  by_cases length : upper.start.size = size + 1
  · rw [if_neg (not_not_intro length)]
    dsimp only
    rw [get_start length (Nat.zero_le _), Checked.ok_bind,
      get_start length (Nat.le_refl _), Checked.ok_bind]
    have ends : first ⟨size, upper⟩ 0 ≠ 0 ∨
        first ⟨size, upper⟩ size ≠ upper.index.size := by
      by_contra both
      obtain ⟨starts, ends⟩ := not_or.mp both
      exact amiss ⟨length, not_not.mp starts, not_not.mp ends⟩
    rw [if_pos ends]
    exact ⟨_, rfl⟩
  · rw [if_pos length]
    exact ⟨_, rfl⟩

theorem checkAllStored_adoptable_iff (encloses : Encloses size upper) :
    checkAllStored upper (List.range size) = .ok (.ok ()) ↔
      Adoptable size upper := by
  rw [checkAllStored_eq_ok_iff]
  constructor
  · intro passed
    have holds : ∀ col, col < size → Holds size upper col :=
      fun col inside => (checkStored_eq_ok_iff encloses inside).mp
        (passed col (List.mem_range.mpr inside))
    exact ⟨encloses, fun col inside => (holds col inside).ascends,
      fun col inside => (holds col inside).isColumn⟩
  · intro adoptable col member
    have inside := List.mem_range.mp member
    exact (checkStored_eq_ok_iff encloses inside).mpr (adoptable.holds inside)

theorem range_eq_cut_iff {done rest : List Nat} :
    List.range size = done ++ col :: rest ↔
      col < size ∧ done = List.range col ∧
        rest = List.range' (col + 1) (size - (col + 1)) := by
  rw [List.range_eq_range', List.range'_eq_append_iff]
  constructor
  · intro cut
    obtain ⟨count, within, rfl, cut⟩ := cut
    obtain ⟨rfl, nonempty, rfl⟩ := List.range'_eq_cons_iff.mp cut.symm
    refine ⟨by omega, ?_, ?_⟩
    · rw [List.range_eq_range']
      congr 1
      omega
    · congr 1
      omega
  · intro cut
    obtain ⟨inside, rfl, rfl⟩ := cut
    refine ⟨col, Nat.le_of_lt inside, List.range_eq_range', ?_⟩
    exact (List.range'_eq_cons_iff.mpr ⟨by omega, by omega, by congr 1⟩).symm

theorem checkAllStored_overruns_iff (encloses : Encloses size upper) :
    checkAllStored upper (List.range size) = .error fault ↔
      ∃ col, Overruns size upper col ∧ fault =
        .outside (first ⟨size, upper⟩ (col + 1)) upper.index.size := by
  rw [checkAllStored_eq_error_iff]
  constructor
  · intro found
    obtain ⟨done, col, rest, cut, passed, faults⟩ := found
    obtain ⟨inside, rfl, _⟩ := range_eq_cut_iff.mp cut
    obtain ⟨ascends, past, told⟩ :=
      (checkStored_eq_error_iff encloses inside).mp faults
    refine ⟨col, ⟨encloses, inside, ?_, ascends, past⟩, told⟩
    intro earlier below
    exact (checkStored_eq_ok_iff encloses (Nat.lt_trans below inside)).mp
      (passed earlier (List.mem_range.mpr below))
  · intro found
    obtain ⟨col, overruns, told⟩ := found
    refine ⟨List.range col, col, _,
      range_eq_cut_iff.mpr ⟨overruns.inside, rfl, rfl⟩, ?_, ?_⟩
    · intro earlier member
      have below := List.mem_range.mp member
      exact (checkStored_eq_ok_iff encloses
        (Nat.lt_trans below overruns.inside)).mpr
        (overruns.before earlier below)
    · exact (checkStored_eq_error_iff encloses overruns.inside).mpr
        ⟨overruns.ascends, overruns.past, told⟩

/-- Compressed columns are adopted, slot for slot, exactly when they are those
of a pattern. The only fault is that of a first column amiss which ends past the
rows without a decrease. -/
theorem ofCompressed_validates (size : Nat) (upper : Compressed) :
    (∀ pattern, ofCompressed size upper = .ok (.ok pattern) ↔
      Adoptable size upper ∧ pattern = ⟨size, upper⟩) ∧
    (∀ fault, ofCompressed size upper = .error fault ↔
      ∃ col, Overruns size upper col ∧ fault =
        .outside (first ⟨size, upper⟩ (col + 1)) upper.index.size) := by
  by_cases encloses : Encloses size upper
  · rw [ofCompressed_of_encloses encloses]
    constructor
    · intro pattern
      rw [← checkAllStored_adoptable_iff encloses]
      constructor
      · intro adopted
        obtain ⟨answer, checked, adopted⟩ :=
          Checked.bind_eq_ok_iff.mp adopted
        cases answer with
        | error flaw => cases adopted
        | ok _ =>
            cases adopted
            exact ⟨checked, rfl⟩
      · intro both
        obtain ⟨checked, rfl⟩ := both
        rw [checked]
        rfl
    · intro fault
      rw [← checkAllStored_overruns_iff encloses]
      cases checkAllStored upper (List.range size) with
      | error _ => rw [Checked.error_bind, Except.error.injEq,
          Except.error.injEq]
      | ok _ => exact iff_of_false nofun nofun
  · obtain ⟨flaw, refused⟩ := ofCompressed_of_not_encloses encloses
    rw [refused]
    constructor
    · intro pattern
      exact iff_of_false nofun fun both => encloses both.1.encloses
    · intro fault
      refine iff_of_false nofun fun found => ?_
      obtain ⟨col, overruns, _⟩ := found
      exact encloses overruns.encloses

/-- Not all compressed columns are answered: here the first column is said to
hold five rows, of the two that there are. -/
theorem ofCompressed_not_total :
    ¬ ∀ (size : Nat) (upper : Compressed),
      ∃ answer, ofCompressed size upper = .ok answer := by
  intro total
  obtain ⟨answer, answered⟩ := total 2 ⟨#[0, 5, 2], #[0, 1]⟩
  have faults : ofCompressed 2 ⟨#[0, 5, 2], #[0, 1]⟩ =
      .error (.outside 5 2) := by decide
  rw [faults] at answered
  cases answered

end QuasiDefinite.Pattern
