import QuasiDefinite.Factor.Refine
import QuasiDefinite.Proofs.Factor.Substitute

namespace QuasiDefinite

open Elimination Compressed

variable {α : Type}

theorem Factor.checkLengths_eq_ok {lengths : List (Quantity × Nat × Nat)}
    (checked : Factor.checkLengths (α := α) lengths = .ok ()) :
    ∀ entry ∈ lengths, entry.2.1 = entry.2.2 := by
  intro entry member
  obtain ⟨quantity, expected, actual⟩ := entry
  have passed : checkLength (α := α) quantity expected actual = .ok () :=
    Checked.forM_eq_ok checked _ member
  unfold checkLength at passed
  split at passed
  · assumption
  · cases passed

theorem Factor.dimension_of_checkLengths
    {lengths : List (Quantity × Nat × Nat)} {error : Error α}
    (refused : Factor.checkLengths lengths = .error error) :
    ∃ quantity expected actual, (quantity, expected, actual) ∈ lengths ∧
      expected ≠ actual ∧ error = .dimension quantity expected actual := by
  induction lengths with
  | nil => cases refused
  | cons entry rest ih =>
      obtain ⟨quantity, expected, actual⟩ := entry
      rw [checkLengths, List.forM_eq_forM, List.forM_cons] at refused
      dsimp only [checkLength] at refused
      by_cases same : expected = actual
      · rw [if_pos same] at refused
        obtain ⟨quantity', expected', actual', member, differs, rfl⟩ :=
          ih refused
        exact ⟨quantity', expected', actual', List.mem_cons_of_mem _ member,
          differs, rfl⟩
      · rw [if_neg same] at refused
        cases refused
        exact ⟨quantity, expected, actual, List.mem_cons_self .., same, rfl⟩

variable [Scalar α] {plan : Plan} {pattern : Pattern}
  {signs : Array Sign} {factor : Factor α} {space : Workspace α}
  {rhs x target : Array α}

/-- The squared norm of the residual of `x`, against the matrix with the given
values. -/
def Plan.residualNormSq (plan : Plan) (values rhs x : Array α) :
    Checked α := do
  let matrix ← loadMatrix plan values (.replicate plan.matrixCount 0)
  let product ← symmetricProduct plan.pattern.upper matrix
    (← Factor.permuted plan x) (.replicate plan.size 0)
  return normSq (Array.zipWith (· - ·) (← Factor.permuted plan rhs) product)

/-! Products with the matrix. -/

section Product

variable {values product : Array α} {row col slot : Nat} {xCol held : α}

theorem ColumnProduct.step_eq (wellFormed : pattern.WellFormed)
    (values_size : values.size = pattern.slotCount)
    (x_size : x.size = pattern.size)
    (found : pattern.entries[slot]? = some (row, col))
    {state : ColumnProduct α}
    (product_size : state.product.size = pattern.size) :
    ColumnProduct.step pattern.upper.index values x col xCol state slot =
      .ok ⟨state.product.modify row (· + values.getD slot 0 * xCol),
        if row = col then state.held
        else state.held + values.getD slot 0 * x.getD row 0⟩ := by
  obtain ⟨le, insideCol⟩ := wellFormed.entry_le (List.mem_of_getElem? found)
  have insideRow := Nat.lt_of_le_of_lt le insideCol
  have insideX : row < x.size := by rwa [x_size]
  have insideValues : slot < values.size := by
    rw [values_size, ← wellFormed.length_entries]
    exact (List.getElem?_eq_some_iff.mp found).1
  have value : values.getD slot 0 = values[slot] :=
    (Array.getElem_eq_getD 0).symm
  have component : x.getD row 0 = x[row] := (Array.getElem_eq_getD 0).symm
  rw [ColumnProduct.step, Checked.get_eq_ok_iff.mpr (wellFormed.index_eq found),
    Checked.ok_bind, Checked.get_eq_ok insideValues, Checked.ok_bind,
    Checked.modify_eq_ok_iff.mpr ⟨by rwa [product_size], rfl⟩, Checked.ok_bind,
    value, component]
  by_cases diagonal : row = col
  · rw [if_pos diagonal, if_pos diagonal]
    rfl
  · rw [if_neg diagonal, if_neg diagonal, Checked.get_eq_ok insideX]
    rfl

theorem symmetricColumn_runs (wellFormed : pattern.WellFormed)
    (values_size : values.size = pattern.slotCount)
    (x_size : x.size = pattern.size) (inside : col < pattern.size)
    (product_size : product.size = pattern.size) :
    ∃ new, symmetricColumn pattern.upper values x product col = .ok new ∧
      new.size = pattern.size := by
  obtain ⟨slots, positions, _, entries⟩ := wellFormed.exists_positions inside
  have insideX : col < x.size := by rwa [x_size]
  obtain ⟨final, ran, final_size⟩ :=
    @Checked.foldlM_keeps _ _ _
      (ColumnProduct.step pattern.upper.index values x col x[col]) slots
      (fun state => state.product.size = pattern.size) ⟨product, 0⟩ product_size
      (by
        intro state slot member product_size
        obtain ⟨row, found⟩ := (entries slot).mp member
        exact ⟨_, ColumnProduct.step_eq wellFormed values_size x_size found
          product_size, Array.size_modify.trans product_size⟩)
  rw [symmetricColumn, Checked.get_eq_ok insideX, Checked.ok_bind,
    positions, Checked.ok_bind, ran, Checked.ok_bind]
  dsimp only
  rw [Checked.modify_eq_ok_iff.mpr ⟨by rwa [final_size], rfl⟩]
  exact ⟨_, rfl, by simpa using final_size⟩

theorem symmetricProduct_runs (wellFormed : pattern.WellFormed)
    (values_size : values.size = pattern.slotCount)
    (x_size : x.size = pattern.size)
    (target_size : target.size = pattern.size) :
    ∃ new, symmetricProduct pattern.upper values x target = .ok new ∧
      new.size = pattern.size := by
  rw [symmetricProduct, wellFormed.size_start,
    Checked.sub_eq_ok (Nat.le_add_left 1 _), Checked.ok_bind,
    Nat.add_sub_cancel]
  apply Checked.foldlM_keeps
    fun product : Array α => product.size = pattern.size
  · rwa [Array.size_map]
  · intro product col member product_size
    exact symmetricColumn_runs wellFormed values_size x_size
      (List.mem_range.mp member) product_size

theorem symmetricProduct_target (upper : Compressed) (values x : Array α) :
    symmetricProduct upper values x target =
      symmetricProduct upper values x (.replicate target.size 0) := by
  rw [symmetricProduct, symmetricProduct, Array.map_const', Array.map_const',
    Array.size_replicate]

end Product

namespace Factor

theorem solve_refuses (misfit : ¬(rhs.size = plan.size ∧
    target.size = plan.size)) :
    ∃ error, solve plan factor space rhs target =
      .ok (.refuse (space, target) error) := by
  rw [solve]
  cases checked : checkLengths (α := α) [(.solveRhs, plan.size, rhs.size),
      (.solveOutput, plan.size, target.size),
      (.solveWorkspace, plan.size, space.size)] with
  | error error => exact ⟨error, rfl⟩
  | ok =>
      have lengths := checkLengths_eq_ok checked
      simp only [List.forall_mem_cons] at lengths
      exact absurd ⟨lengths.1.symm, lengths.2.1.symm⟩ misfit

theorem solve_total (regular : plan.Regular pattern signs)
    (fits : factor.Fits plan) (fitsSpace : space.Fits plan.size)
    (rhs target : Array α) :
    ∃ reply, solve plan factor space rhs target = .ok reply ∧
      reply.state.1.Fits plan.size ∧ reply.state.2.size = target.size := by
  by_cases sizes : rhs.size = plan.size ∧ target.size = plan.size
  · obtain ⟨work, new, _, _, ran, work_size, new_size, _⟩ :=
      solve_runs regular fits fitsSpace sizes.1 sizes.2
    exact ⟨_, ran, ⟨work_size, fitsSpace.residual_size,
      fitsSpace.solution_size⟩, new_size.trans sizes.2.symm⟩
  · obtain ⟨error, refused⟩ := solve_refuses sizes
    exact ⟨_, refused, fitsSpace, rfl⟩

omit [Scalar α] in
theorem checkResidualLengths_eq_ok (fitsSpace : space.Fits plan.size)
    (rhs_size : rhs.size = plan.size) (x_size : x.size = plan.size) :
    checkResidualLengths plan space rhs x = .ok () := by
  simp [checkResidualLengths, checkLengths, checkLength, rhs_size, x_size,
    Workspace.size, fitsSpace.work_size]

omit [Scalar α] in
theorem checkResidualLengths_refuses {size : Nat} (fitsSpace : space.Fits size)
    (misfit : ¬(rhs.size = plan.size ∧ x.size = plan.size ∧
      size = plan.size)) :
    ∃ error, checkResidualLengths plan space rhs x = .error error := by
  cases checked : checkResidualLengths plan space rhs x with
  | error error => exact ⟨error, rfl⟩
  | ok =>
      have lengths := checkLengths_eq_ok checked
      simp only [List.forall_mem_cons] at lengths
      obtain ⟨rhs_size, x_size, space_size, _⟩ := lengths
      refine absurd ⟨rhs_size.symm, x_size.symm, ?_⟩ misfit
      exact fitsSpace.work_size.symm.trans space_size.symm

def residualOf (plan : Plan) (factor : Factor α) (rhs v : Array α) :
    Checked (Array α) := do
  let product ← symmetricProduct plan.pattern.upper factor.matrix v
    (.replicate plan.size 0)
  return Array.zipWith (· - ·) (← permuted plan rhs) product

theorem residualOf_runs (regular : plan.Regular pattern signs)
    (fits : factor.Fits plan) (rhs_size : rhs.size = plan.size)
    {v : Array α} (v_size : v.size = plan.size) :
    ∃ r, residualOf plan factor rhs v = .ok r ∧ r.size = plan.size := by
  obtain ⟨product, multiplies, product_size⟩ :=
    symmetricProduct_runs regular.relabels.wellFormed fits.matrix_size v_size
      (Array.size_replicate : (Array.replicate plan.size (0 : α)).size = _)
  obtain ⟨moved, permutes, moved_size, _⟩ := permuted_runs regular rhs_size
  dsimp only at multiplies product_size
  rw [residualOf, multiplies, Checked.ok_bind, permutes]
  refine ⟨_, rfl, ?_⟩
  have same : product.size = plan.size := product_size
  simp [moved_size, same]

theorem residual_eq (fitsSpace : space.Fits plan.size) {r : Array α}
    (left : residualOf plan factor rhs space.solution = .ok r) :
    residual plan factor rhs space =
      .ok (normSq r, { space with residual := r }) := by
  rw [residualOf, Checked.bind_eq_ok_iff] at left
  obtain ⟨product, multiplies, left⟩ := left
  obtain ⟨moved, permutes, made⟩ := Checked.bind_eq_ok_iff.mp left
  cases made
  rw [residual, symmetricProduct_target, fitsSpace.residual_size, multiplies,
    Checked.ok_bind, permutes]
  rfl

theorem residualNormSq_eq (fitsSpace : space.Fits plan.size)
    (rhs_size : rhs.size = plan.size) (x_size : x.size = plan.size)
    {v r : Array α} (v_size : v.size = plan.size)
    (permutes : permuted plan x = .ok v)
    (left : residualOf plan factor rhs v = .ok r) :
    residualNormSq plan factor space rhs x = .ok (.answer
      { space with solution := v, residual := r } (normSq r)) := by
  have fitsStart : Workspace.Fits { space with solution := v } plan.size :=
    ⟨fitsSpace.work_size, fitsSpace.residual_size, v_size⟩
  rw [residualNormSq, checkResidualLengths_eq_ok fitsSpace rhs_size x_size]
  dsimp only
  rw [permutes, Checked.ok_bind, residual_eq fitsStart left]
  rfl

theorem residualNormSq_total (regular : plan.Regular pattern signs)
    (fits : factor.Fits plan) (fitsSpace : space.Fits plan.size)
    (rhs x : Array α) :
    ∃ reply, residualNormSq plan factor space rhs x = .ok reply ∧
      reply.state.Fits plan.size := by
  by_cases sizes : rhs.size = plan.size ∧ x.size = plan.size
  · obtain ⟨v, permutes, v_size, _⟩ := permuted_runs regular sizes.2
    obtain ⟨r, left, r_size⟩ := residualOf_runs regular fits sizes.1 v_size
    exact ⟨_, residualNormSq_eq fitsSpace sizes.1 sizes.2 v_size permutes left,
      fitsSpace.work_size, r_size, v_size⟩
  · obtain ⟨error, refused⟩ := checkResidualLengths_refuses fitsSpace
      fun all => sizes ⟨all.1, all.2.1⟩
    rw [residualNormSq, refused]
    exact ⟨_, rfl, fitsSpace⟩

theorem residualNormSq_runs (regular : plan.Regular pattern signs)
    {settings : Settings α} {values : Array α} {numbers : Numbers α}
    (values_size : values.size = plan.matrixCount)
    (holds : factor.Holds plan settings values numbers)
    (fitsSpace : space.Fits plan.size) (rhs_size : rhs.size = plan.size)
    (x_size : x.size = plan.size) :
    ∃ value new, plan.residualNormSq values rhs x = .ok value ∧
      residualNormSq plan factor space rhs x = .ok (.answer new value) ∧
      new.Fits plan.size := by
  obtain ⟨matrix, loads, matrix_size, loaded⟩ :=
    loadMatrix_runs regular values_size (Array.size_replicate :
      (Array.replicate plan.matrixCount (0 : α)).size = _)
  obtain rfl := Plan.matrix_ext regular holds.fits.matrix_size matrix_size
    holds.matrix loaded
  obtain ⟨v, permutes, v_size, _⟩ := permuted_runs regular x_size
  obtain ⟨r, left, r_size⟩ :=
    residualOf_runs regular holds.fits rhs_size v_size
  refine ⟨normSq r, { space with solution := v, residual := r }, ?_,
    residualNormSq_eq fitsSpace rhs_size x_size v_size permutes left,
    fitsSpace.work_size, r_size, v_size⟩
  rw [residualOf, Checked.bind_eq_ok_iff] at left
  obtain ⟨product, multiplies, left⟩ := left
  obtain ⟨moved, permutes', made⟩ := Checked.bind_eq_ok_iff.mp left
  cases made
  rw [Plan.residualNormSq, loads, Checked.ok_bind, permutes, Checked.ok_bind,
    multiplies, Checked.ok_bind, permutes']
  rfl

section Defect

variable {dense : Array α} {row col : Nat}

theorem productEntry_runs (regular : plan.Regular pattern signs)
    (fits : factor.Fits plan) (dense_size : dense.size = plan.size)
    (inside : row < plan.size) :
    ∃ value, productEntry plan factor dense row = .ok value := by
  have insideDiagonal : row < factor.diagonal.size := by
    rwa [fits.diagonal_size]
  have insideDense : row < dense.size := by rwa [dense_size]
  rw [productEntry, Checked.get_eq_ok insideDiagonal, Checked.ok_bind,
    Checked.get_eq_ok insideDense, Checked.ok_bind, regular.steps_eq inside,
    Checked.ok_bind]
  obtain ⟨value, ran, _⟩ := @Checked.foldlM_keeps _ _ _
    (fun total (step : Step) => do
      let value ← Checked.get factor.lower step.slot
      let pivot ← Checked.get factor.diagonal step.col
      return total + value * pivot * (← Checked.get dense step.col))
    (stepsOf plan.rowLists row) (fun _ => True)
    (factor.diagonal[row] * dense[row]) trivial
    (by
      intro total step member _
      obtain ⟨small, insideLower⟩ := regular.step_lt member
      rw [← fits.lower_size] at insideLower
      have insideDiagonal : step.col < factor.diagonal.size := by
        rwa [fits.diagonal_size]
      have insideDense : step.col < dense.size := by rwa [dense_size]
      rw [Checked.get_eq_ok insideLower, Checked.ok_bind,
        Checked.get_eq_ok insideDiagonal, Checked.ok_bind,
        Checked.get_eq_ok insideDense]
      exact ⟨_, rfl, trivial⟩)
  exact ⟨value, ran⟩

/-- Adds the squared defects of slots that are in the column of the row spread
over `dense`. -/
def slotDefects (plan : Plan) (factor : Factor α) (dense : Array α)
    (slots : List Nat) (total : α) : Checked α :=
  slots.foldlM
    (fun total slot => do
      let row ← Checked.get plan.pattern.upper.index slot
      let product ← productEntry plan factor dense row
      let defect := (← Checked.get factor.matrix slot) - product
      return total + defect * defect) total

theorem slotDefects_runs (regular : plan.Regular pattern signs)
    (fits : factor.Fits plan) (dense_size : dense.size = plan.size)
    (inside : col < plan.size) {slots : List Nat}
    (entries : ∀ slot ∈ slots,
      ∃ row, plan.pattern.entries[slot]? = some (row, col)) (total : α) :
    ∃ sum, slotDefects plan factor dense slots total = .ok sum := by
  have moved : plan.pattern.WellFormed := regular.relabels.wellFormed
  obtain ⟨sum, ran, _⟩ := @Checked.foldlM_keeps _ _ _
    (fun total slot => do
      let row ← Checked.get plan.pattern.upper.index slot
      let product ← productEntry plan factor dense row
      let defect := (← Checked.get factor.matrix slot) - product
      return total + defect * defect)
    slots (fun _ => True) total trivial
    (by
      intro total slot member _
      obtain ⟨row, found⟩ := entries slot member
      have le := (moved.entry_le (List.mem_of_getElem? found)).1
      have insideMatrix : slot < factor.matrix.size := by
        rw [fits.matrix_size, Plan.matrixCount, ← moved.length_entries]
        exact (List.getElem?_eq_some_iff.mp found).1
      obtain ⟨product, ran⟩ := productEntry_runs regular fits dense_size
        (Nat.lt_of_le_of_lt le inside)
      rw [Checked.get_eq_ok_iff.mpr (moved.index_eq found), Checked.ok_bind,
        ran, Checked.ok_bind, Checked.get_eq_ok insideMatrix]
      exact ⟨_, rfl, trivial⟩)
  exact ⟨sum, ran⟩

omit [Scalar α] in
theorem foldlM_set_reads (regular : plan.Regular pattern signs)
    (inside : row < plan.size) {y : Nat → α} (reads : Reads dense plan.size y)
    (value : Step → Checked α) {entry : Nat → α}
    (read : ∀ col ∈ plan.rowColumns row,
      value ⟨col, factorSlot plan.rowLists col row⟩ = .ok (entry col)) :
    ∃ new, (stepsOf plan.rowLists row).foldlM
        (fun dense step => do
          Checked.set dense step.col (← value step)) dense = .ok new ∧
      Reads new plan.size fun i =>
        if i ∈ plan.rowColumns row then entry i else y i := by
  rw [stepsOf, List.foldlM_map]
  refine Checked.foldlM_runs
    (fun done dense => Reads dense plan.size fun i =>
      if i ∈ done then entry i else y i)
    (reads.congr fun i _ => (if_neg List.not_mem_nil).symm) ?_
  intro done col rest dense split reads
  have member : col ∈ plan.rowColumns row := by
    rw [Plan.rowColumns, split]
    simp
  have small := Nat.lt_trans (regular.lt_of_mem member).1 inside
  obtain ⟨new, sets, readsNew⟩ := reads.set_runs small (entry col)
  refine ⟨new, by rw [read col member]; exact sets, readsNew.congr ?_⟩
  intro i _
  simp only [List.mem_append, List.mem_singleton]
  split_ifs with same here <;> simp_all

/-- A column spreads its row of `L`, adds the defects of its slots and clears
the row again. -/
theorem defectColumn_spreads (regular : plan.Regular pattern signs)
    (fits : factor.Fits plan) (inside : col < plan.size) {y : Nat → α}
    (reads : Reads dense plan.size y) :
    ∃ slots spread new, slots.Nodup ∧
      (∀ slot, slot ∈ slots ↔
        ∃ row, plan.pattern.entries[slot]? = some (row, col)) ∧
      Reads spread plan.size (fun i => if i = col then 1
        else if i ∈ plan.rowColumns col then plan.stored factor.lower col i
        else y i) ∧
      Reads new plan.size (fun i =>
        if i = col ∨ i ∈ plan.rowColumns col then 0 else y i) ∧
      ∀ total, defectColumn plan factor (total, dense) col = do
        return (← slotDefects plan factor spread slots total, new) := by
  have moved : plan.pattern.WellFormed := regular.relabels.wellFormed
  obtain ⟨slots, positions, nodup, entries⟩ := moved.exists_positions inside
  obtain ⟨below, spreads, readsBelow⟩ := foldlM_set_reads regular inside reads
    (fun step => Checked.get factor.lower step.slot) fun other member =>
      Checked.get_eq_ok_iff.mpr
        (Plan.lower_eq_stored regular fits.lower_size member)
  obtain ⟨spread, sets, readsSpread⟩ := readsBelow.set_runs inside 1
  obtain ⟨rest, clears, readsRest⟩ := foldlM_set_reads regular inside
    readsSpread (fun _ => .ok 0) fun _ _ => rfl
  obtain ⟨new, sets', readsNew⟩ := readsRest.set_runs inside 0
  refine ⟨slots, spread, new, nodup, entries, readsSpread, readsNew.congr ?_,
    fun total => ?_⟩
  · intro i _
    split_ifs <;> simp_all
  · simp only [Checked.ok_bind] at clears
    rw [defectColumn]
    dsimp only
    rw [regular.steps_eq inside, Checked.ok_bind, spreads, Checked.ok_bind,
      sets, Checked.ok_bind, positions, Checked.ok_bind, clears]
    simp only [Checked.ok_bind, sets']
    rfl

theorem defectColumn_runs (regular : plan.Regular pattern signs)
    (fits : factor.Fits plan) {total : α} (dense_size : dense.size = plan.size)
    (inside : col < plan.size) :
    ∃ next, defectColumn plan factor (total, dense) col = .ok next ∧
      next.2.size = plan.size := by
  obtain ⟨slots, spread, new, _, entries, readsSpread, readsNew, split⟩ :=
    defectColumn_spreads regular fits inside (reads_getD dense_size 0)
  obtain ⟨sum, sums⟩ := slotDefects_runs regular fits readsSpread.1 inside
    (fun slot member => (entries slot).mp member) total
  rw [split, sums]
  exact ⟨_, rfl, readsNew.1⟩

theorem defectNormSq_total (regular : plan.Regular pattern signs)
    (fits : factor.Fits plan) (fitsSpace : space.Fits plan.size) :
    ∃ value new, defectNormSq plan factor space = .ok (value, new) ∧
      new.Fits plan.size := by
  obtain ⟨⟨value, work⟩, ran, work_size⟩ := @Checked.foldlM_keeps _ _ _
    (defectColumn plan factor) (List.range plan.size)
    (fun state => state.2.size = plan.size)
    (0, space.work.map fun _ => 0)
    (by simpa using fitsSpace.work_size)
    (by
      intro state col member dense_size
      exact defectColumn_runs regular fits dense_size
        (List.mem_range.mp member))
  rw [defectNormSq, ran]
  exact ⟨_, _, rfl, work_size, fitsSpace.residual_size,
    fitsSpace.solution_size⟩

end Defect

end Factor

end QuasiDefinite
