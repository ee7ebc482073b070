import QuasiDefinite.Factor.Solve
import QuasiDefinite.Proofs.Factor.Sweep

namespace QuasiDefinite

open Elimination Compressed

variable {α : Type}

def Reads (x : Array α) (size : Nat) (y : Nat → α) : Prop :=
  x.size = size ∧ ∀ i : Nat, i < size → x[i]? = some (y i)

theorem reads_getD {x : Array α} {size : Nat} (x_size : x.size = size)
    (default : α) : Reads x size fun i => x.getD i default := by
  refine ⟨x_size, fun i inside => ?_⟩
  rw [← x_size] at inside
  simp [inside]

theorem reads_map_const {β : Type} {x : Array β} {size : Nat}
    (x_size : x.size = size) (value : α) :
    Reads (x.map fun _ => value) size fun _ => value := by
  refine ⟨Array.size_map.trans x_size, fun i inside => ?_⟩
  rw [← x_size] at inside
  simp [inside]

namespace Reads

variable {x new : Array α} {size col : Nat} {y : Nat → α}

theorem get_eq (reads : Reads x size y) (inside : col < size) :
    Checked.get x col = .ok (y col) :=
  Checked.get_eq_ok_iff.mpr (reads.2 col inside)

theorem set_runs (reads : Reads x size y) (inside : col < size) (value : α) :
    ∃ new, Checked.set x col value = .ok new ∧
      Reads new size fun i => if i = col then value else y i := by
  have insideX : col < x.size := by rwa [reads.1]
  refine ⟨_, Checked.set_eq_ok_iff.mpr ⟨insideX, rfl⟩,
    by simpa using reads.1, fun i insideI => ?_⟩
  by_cases same : col = i
  · subst same
    rw [Array.getElem?_setIfInBounds_self_of_lt insideX]
    exact congrArg some (if_pos rfl).symm
  · rw [Array.getElem?_setIfInBounds_ne same, reads.2 i insideI]
    exact congrArg some (if_neg (Ne.symm same)).symm

theorem congr {y' : Nat → α} (reads : Reads x size y)
    (same : ∀ i, i < size → y i = y' i) : Reads x size y' :=
  ⟨reads.1, fun i inside => same i inside ▸ reads.2 i inside⟩

end Reads

variable {plan : Plan} {pattern : Pattern} {signs : Array Sign}

namespace Factor

theorem permuted_runs (regular : plan.Regular pattern signs)
    {vector : Array α} (vector_size : vector.size = plan.size) :
    ∃ new, permuted plan vector = .ok new ∧ new.size = plan.size ∧
      ∀ place index : Nat, plan.order.order[place]? = some index →
        new[place]? = vector[index]? := by
  rw [regular.size_eq] at vector_size ⊢
  exact regular.valid.mapM_get_runs vector_size

theorem unpermuted_runs (regular : plan.Regular pattern signs)
    {vector target : Array α} (vector_size : vector.size = plan.size)
    (target_size : target.size = plan.size) :
    ∃ new, unpermuted plan vector target = .ok new ∧ new.size = plan.size ∧
      ∀ place index : Nat, plan.order.order[place]? = some index →
        new[index]? = vector[place]? := by
  rw [regular.size_eq] at vector_size target_size ⊢
  exact regular.valid.foldlM_set_runs vector_size target_size

end Factor

/-! Ascending lists up to a bound. -/

theorem filter_lt_succ {cols : List Nat} (ascending : cols.Pairwise (· < ·))
    (count : Nat) :
    cols.filter (fun col => decide (col < count + 1)) =
      cols.filter (fun col => decide (col < count)) ++
        if count ∈ cols then [count] else [] := by
  induction cols with
  | nil => rfl
  | cons col rest ih =>
      obtain ⟨later, ascending⟩ := List.pairwise_cons.mp ascending
      have ih := ih ascending
      rcases Nat.lt_trichotomy col count with below | rfl | above
      · have member : count ∈ col :: rest ↔ count ∈ rest := by
          simp [Nat.ne_of_gt below]
        rw [List.filter_cons_of_pos (by simpa using Nat.lt_succ_of_lt below),
          List.filter_cons_of_pos (by simpa using below), ih,
          List.cons_append]
        simp only [member]
      · have none : rest.filter (fun other => decide (other < col)) = [] := by
          rw [List.filter_eq_nil_iff]
          intro other member
          simpa using Nat.le_of_lt (later other member)
        have absent : col ∉ rest := fun member =>
          Nat.lt_irrefl _ (later col member)
        rw [List.filter_cons_of_pos (by simp),
          List.filter_cons_of_neg (by simp), ih, none, if_neg absent,
          if_pos (List.mem_cons_self ..)]
        rfl
      · have absent : count ∉ rest := fun member =>
          Nat.lt_asymm above (later count member)
        have absent' : count ∉ col :: rest := by
          rintro (_ | ⟨_, member⟩)
          · exact Nat.lt_irrefl _ above
          · exact absent member
        rw [List.filter_cons_of_neg (by simpa using Nat.succ_le_of_lt above),
          List.filter_cons_of_neg (by simpa using Nat.le_of_lt above), ih,
          if_neg absent, if_neg absent']

variable [Scalar α] {lower x : Array α} {y : Nat → α} {row col : Nat}

def Plan.stored (plan : Plan) (lower : Array α) (row col : Nat) : α :=
  lower.getD (factorSlot plan.rowLists col row) 0

theorem Plan.lower_eq_stored (regular : plan.Regular pattern signs)
    (lower_size : lower.size = plan.factorCount)
    (member : col ∈ plan.rowColumns row) :
    lower[factorSlot plan.rowLists col row]? =
      some (plan.stored lower row col) := by
  have inside := regular.factorSlot_lt member
  rw [← lower_size] at inside
  simp [stored, inside]

theorem Plan.positions_lower (regular : plan.Regular pattern signs)
    (inside : col < plan.size) :
    plan.lower.positions col =
      .ok (span (base (columnLists plan.rowLists) col)
        (factorSlot plan.rowLists col plan.size)) := by
  rw [regular.size_eq, ← regular.rows_length] at inside
  rw [regular.size_eq, ← regular.rows_length, regular.lower,
    positions_ofLists (by simpa using inside), base_columnLists_succ inside]

namespace Factor

/-- A component of a forward pass after one from above; a zero is passed
over. -/
def taken (multiplier component value : α) : α :=
  if Scalar.isZero component then value else value - multiplier * component

def forwardRest (plan : Plan) (lower : Array α) (z : Nat → α) (row : Nat)
    (start : α) (cols : List Nat) : α :=
  cols.foldl (fun value col => taken (plan.stored lower row col) (z col) value)
    start

def backwardRest (plan : Plan) (lower : Array α) (z : Nat → α) (col : Nat)
    (start : α) (rows : List Nat) : α :=
  rows.foldl (fun value row => value - plan.stored lower row col * z row) start

theorem forwardRest_congr {z z' : Nat → α} {start : α} {cols : List Nat}
    (same : ∀ col ∈ cols, z col = z' col) :
    forwardRest plan lower z row start cols =
      forwardRest plan lower z' row start cols := by
  apply List.foldl_ext
  intro value col member
  rw [same col member]

theorem forwardRest_append {z : Nat → α} {start : α} {cols more : List Nat} :
    forwardRest plan lower z row start (cols ++ more) =
      forwardRest plan lower z row (forwardRest plan lower z row start cols)
        more :=
  List.foldl_append

theorem backwardRest_congr {z z' : Nat → α} {start : α} {rows : List Nat}
    (same : ∀ row ∈ rows, z row = z' row) :
    backwardRest plan lower z col start rows =
      backwardRest plan lower z' col start rows := by
  apply List.foldl_ext
  intro value row member
  rw [same row member]

theorem forwardColumn_runs (regular : plan.Regular pattern signs)
    (lower_size : lower.size = plan.factorCount) (reads : Reads x plan.size y)
    (inside : col < plan.size) :
    ∃ new, forwardColumn plan lower x col = .ok new ∧
      Reads new plan.size fun i =>
        if col ∈ plan.rowColumns i
        then taken (plan.stored lower i col) (y col) (y i) else y i := by
  rw [forwardColumn, reads.get_eq inside, Checked.ok_bind]
  cases zero : Scalar.isZero (y col) with
  | true =>
      refine ⟨x, rfl, reads.congr fun i _ => ?_⟩
      simp [taken, zero]
  | false =>
      obtain ⟨new, ran, new_size, reduced⟩ := reduceWork_runs regular reads.1
        fun i member => Plan.lower_eq_stored regular lower_size
          (mem_rowsBefore.mp member).2
      refine ⟨new, ?_, new_size, fun i insideI => ?_⟩
      · rw [if_neg Bool.false_ne_true, Plan.positions_lower regular inside]
        exact (reduceWork_eq ..).symm.trans ran
      · rw [reduced i, reads.2 i insideI]
        dsimp only
        by_cases member : col ∈ plan.rowColumns i
        · rw [if_pos (mem_rowsBefore.mpr ⟨insideI, member⟩), if_pos member]
          simp [taken, zero]
        · rw [if_neg fun touched => member (mem_rowsBefore.mp touched).2,
            if_neg member]

/-- The array after the columns before `count`: components before `count` are
final. -/
def ForwardHolds (plan : Plan) (lower : Array α) (y : Nat → α) (count : Nat)
    (x : Array α) : Prop :=
  ∃ z : Nat → α, Reads x plan.size z ∧ ∀ i, i < plan.size →
    z i = forwardRest plan lower z i (y i)
      ((plan.rowColumns i).filter fun col => decide (col < count))

theorem ForwardHolds.next (regular : plan.Regular pattern signs)
    (lower_size : lower.size = plan.factorCount) {count : Nat}
    (inside : count < plan.size)
    (holds : ForwardHolds plan lower y count x) :
    ∃ new, forwardColumn plan lower x count = .ok new ∧
      ForwardHolds plan lower y (count + 1) new := by
  obtain ⟨z, reads, solved⟩ := holds
  obtain ⟨new, ran, reads'⟩ :=
    forwardColumn_runs regular lower_size reads inside
  refine ⟨new, ran, _, reads', fun i insideI => ?_⟩
  have unchanged : ∀ col ∈
      (plan.rowColumns i).filter (fun col => decide (col < count + 1)),
      (if count ∈ plan.rowColumns col
        then taken (plan.stored lower col count) (z count) (z col)
        else z col) = z col := by
    intro col member
    have le : col < count + 1 := by simpa using (List.mem_filter.mp member).2
    apply if_neg
    intro member
    exact Nat.not_lt_of_le (Nat.le_of_lt_succ le) (regular.lt_of_mem member).1
  rw [forwardRest_congr unchanged, filter_lt_succ regular.pairwise_rowColumns,
    forwardRest_append, ← solved i insideI]
  by_cases member : count ∈ plan.rowColumns i
  · rw [if_pos member, if_pos member]
    rfl
  · rw [if_neg member, if_neg member]
    rfl

theorem forward_runs (regular : plan.Regular pattern signs)
    (lower_size : lower.size = plan.factorCount)
    (reads : Reads x plan.size y) :
    ∃ new z, (List.range plan.size).foldlM (forwardColumn plan lower) x =
        .ok new ∧ Reads new plan.size z ∧
      ∀ i, i < plan.size →
        z i = forwardRest plan lower z i (y i) (plan.rowColumns i) := by
  obtain ⟨new, ran, z, reads, solved⟩ := Checked.foldlM_range_runs
    (ForwardHolds plan lower y) ⟨y, reads, fun i _ => by simp [forwardRest]⟩
    fun count x inside holds => holds.next regular lower_size inside
  refine ⟨new, z, ran, reads, fun i inside => ?_⟩
  have all : (plan.rowColumns i).filter (fun col => decide (col < plan.size)) =
      plan.rowColumns i := by
    rw [List.filter_eq_self]
    intro col member
    simpa using Nat.lt_trans (regular.lt_of_mem member).1 inside
  conv => lhs; rw [solved i inside, all]

theorem backwardColumn_runs (regular : plan.Regular pattern signs)
    (lower_size : lower.size = plan.factorCount) (reads : Reads x plan.size y)
    (inside : col < plan.size) :
    ∃ new, backwardColumn plan lower x col = .ok new ∧
      Reads new plan.size fun i => if i = col
        then backwardRest plan lower y col (y col)
          (rowsBefore plan.rowLists plan.size col)
        else y i := by
  rw [backwardColumn, reads.get_eq inside, Checked.ok_bind,
    Plan.positions_lower regular inside, Checked.ok_bind, ← map_factorSlot,
    List.foldlM_map]
  rw [@Checked.foldlM_eq_foldl _ _ _ _
    (fun value row => value - plan.stored lower row col * y row)]
  · exact reads.set_runs inside _
  · intro total row member
    obtain ⟨insideRow, inRow⟩ := mem_rowsBefore.mp member
    rw [Checked.get_eq_ok_iff.mpr (regular.index_lower inRow), Checked.ok_bind,
      Checked.get_eq_ok_iff.mpr (Plan.lower_eq_stored regular lower_size inRow),
      Checked.ok_bind, reads.get_eq insideRow]
    rfl

/-- The array when `count` columns are left: components from `count` on are
final, the others as they were. -/
def BackwardHolds (plan : Plan) (lower : Array α) (y : Nat → α) (count : Nat)
    (x : Array α) : Prop :=
  ∃ z : Nat → α, Reads x plan.size z ∧
    (∀ col, col < count → z col = y col) ∧
    ∀ col, count ≤ col → col < plan.size →
      z col = backwardRest plan lower z col (y col)
        (rowsBefore plan.rowLists plan.size col)

theorem BackwardHolds.next (regular : plan.Regular pattern signs)
    (lower_size : lower.size = plan.factorCount) {count : Nat}
    (inside : count < plan.size)
    (holds : BackwardHolds plan lower y (count + 1) x) :
    ∃ new, backwardColumn plan lower x count = .ok new ∧
      BackwardHolds plan lower y count new := by
  obtain ⟨z, reads, waiting, solved⟩ := holds
  obtain ⟨new, ran, reads'⟩ :=
    backwardColumn_runs regular lower_size reads inside
  have later : ∀ col, count ≤ col → ∀ row ∈
      rowsBefore plan.rowLists plan.size col, row ≠ count := by
    intro col le row member
    have below := (regular.lt_of_mem (mem_rowsBefore.mp member).2).1
    exact Nat.ne_of_gt (Nat.lt_of_le_of_lt le below)
  refine ⟨new, ran, _, reads', fun col below => ?_, fun col le insideCol => ?_⟩
  · rw [if_neg (Nat.ne_of_lt below)]
    exact waiting col (Nat.lt_succ_of_lt below)
  · rw [backwardRest_congr fun row member => if_neg (later col le row member)]
    cases Nat.eq_or_lt_of_le le with
    | inl same =>
        subst same
        rw [if_pos rfl, waiting count (Nat.lt_succ_self count)]
    | inr above =>
        rw [if_neg (Nat.ne_of_gt above)]
        exact solved col above insideCol

theorem backward_runs (regular : plan.Regular pattern signs)
    (lower_size : lower.size = plan.factorCount)
    (reads : Reads x plan.size y) :
    ∃ new z, (List.range plan.size).reverse.foldlM
        (backwardColumn plan lower) x = .ok new ∧ Reads new plan.size z ∧
      ∀ col, col < plan.size →
        z col = backwardRest plan lower z col (y col)
          (rowsBefore plan.rowLists plan.size col) := by
  obtain ⟨new, ran, z, reads, _, solved⟩ := Checked.foldlM_reverse_range_runs
    (BackwardHolds plan lower y)
    ⟨y, reads, fun _ _ => rfl,
      fun col le inside => absurd inside (Nat.not_lt_of_le le)⟩
    fun count x inside holds => holds.next regular lower_size inside
  exact ⟨new, z, ran, reads, fun col => solved col (Nat.zero_le col)⟩

variable {factor : Factor α} {b : Nat → α}

/-- `z` comes from `b` by the forward pass, the inverse pivots and the backward
pass. -/
def Substitutes (plan : Plan) (factor : Factor α) (b z : Nat → α) : Prop :=
  ∃ y : Nat → α,
    (∀ i, i < plan.size →
      y i = forwardRest plan factor.lower y i (b i) (plan.rowColumns i)) ∧
    ∀ col, col < plan.size → z col = backwardRest plan factor.lower z col
      (y col * factor.inverse.getD col 0)
      (rowsBefore plan.rowLists plan.size col)

theorem substitute_runs (regular : plan.Regular pattern signs)
    (fits : factor.Fits plan) (reads : Reads x plan.size b) :
    ∃ new z, substitute plan factor x = .ok new ∧ Reads new plan.size z ∧
      Substitutes plan factor b z := by
  obtain ⟨middle, y, forward, readsY, solvedY⟩ :=
    forward_runs regular fits.lower_size reads
  have scaled : Reads (Array.zipWith (· * ·) middle factor.inverse) plan.size
      fun col => y col * factor.inverse.getD col 0 := by
    refine ⟨by simp [readsY.1, fits.inverse_size], fun col inside => ?_⟩
    have insideInverse : col < factor.inverse.size := by
      rwa [fits.inverse_size]
    rw [Array.getElem?_zipWith, readsY.2 col inside]
    simp [insideInverse]
  obtain ⟨new, z, backward, readsZ, solvedZ⟩ :=
    backward_runs regular fits.lower_size scaled
  refine ⟨new, z, ?_, readsZ, y, solvedY, solvedZ⟩
  rw [substitute]
  dsimp only
  rw [forward, Checked.ok_bind]
  exact backward

end Factor

structure Workspace.Fits (space : Workspace α) (size : Nat) : Prop where
  work_size : space.work.size = size
  residual_size : space.residual.size = size
  solution_size : space.solution.size = size

theorem Workspace.fits_ofSize (size : Nat) :
    (ofSize size : Workspace α).Fits size where
  work_size := Array.size_replicate
  residual_size := Array.size_replicate
  solution_size := Array.size_replicate

namespace Factor

variable {factor : Factor α} {space : Workspace α} {rhs target : Array α}

theorem solve_eq (fitsSpace : space.Fits plan.size)
    (rhs_size : rhs.size = plan.size) (target_size : target.size = plan.size)
    {start work new : Array α} (permutes : permuted plan rhs = .ok start)
    (substitutes : substitute plan factor start = .ok work)
    (writes : unpermuted plan work target = .ok new) :
    solve plan factor space rhs target =
      .ok (.answer ({ space with work }, new) ()) := by
  have lengths : checkLengths (α := α) [(.solveRhs, plan.size, rhs.size),
      (.solveOutput, plan.size, target.size),
      (.solveWorkspace, plan.size, space.size)] = .ok () := by
    simp [checkLengths, checkLength, rhs_size, target_size, Workspace.size,
      fitsSpace.work_size]
  rw [solve, lengths]
  dsimp only
  rw [permutes, Checked.ok_bind, substitutes, Checked.ok_bind, writes]
  rfl

theorem solve_runs (regular : plan.Regular pattern signs)
    (fits : factor.Fits plan) (fitsSpace : space.Fits plan.size)
    (rhs_size : rhs.size = plan.size) (target_size : target.size = plan.size) :
    ∃ work new b z, solve plan factor space rhs target =
        .ok (.answer ({ space with work }, new) ()) ∧
      work.size = plan.size ∧ new.size = plan.size ∧
      Substitutes plan factor b z ∧
      ∀ place index : Nat, plan.order.order[place]? = some index →
        rhs[index]? = some (b place) ∧ new[index]? = some (z place) := by
  obtain ⟨start, permutes, start_size, permuted⟩ :=
    permuted_runs regular rhs_size
  have reads := reads_getD start_size 0
  obtain ⟨work, z, substitutes, readsZ, solved⟩ :=
    substitute_runs regular fits reads
  obtain ⟨new, writes, new_size, written⟩ :=
    unpermuted_runs regular readsZ.1 target_size
  refine ⟨work, new, _, z,
    solve_eq fitsSpace rhs_size target_size permutes substitutes writes,
    readsZ.1, new_size, solved, fun place index found => ?_⟩
  have inside : place < plan.size := by
    rw [regular.size_eq, ← regular.valid.order_size]
    exact (Array.getElem?_eq_some_iff.mp found).1
  rw [← permuted place index found, written place index found]
  exact ⟨reads.2 place inside, readsZ.2 place inside⟩

end Factor

end QuasiDefinite
