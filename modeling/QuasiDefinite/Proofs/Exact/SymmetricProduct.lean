import Mathlib.Algebra.BigOperators.Group.Finset.Sigma
import QuasiDefinite.Proofs.Exact.Product
import QuasiDefinite.Proofs.Factor.Answers

namespace QuasiDefinite

variable {K : Type} [ExactField K] {pattern : Pattern} {values x : Array K}
  {y z : Nat → K} {row col slot i k : Nat}

theorem Reads.modify {α : Type} {x : Array α} {size : Nat} {y : Nat → α}
    (reads : Reads x size y) (col : Nat) (change : α → α) :
    Reads (x.modify col change) size fun i =>
      if i = col then change (y i) else y i := by
  refine ⟨Array.size_modify.trans reads.1, fun i inside => ?_⟩
  rw [Array.getElem?_modify, reads.2 i inside]
  by_cases same : col = i
  · rw [if_pos same]
    exact congrArg some (if_pos same.symm).symm
  · rw [if_neg same]
    exact congrArg some (if_neg (Ne.symm same)).symm

namespace Pattern

/-- The entry of the symmetric matrix, read from its upper triangle. -/
def valueAt (pattern : Pattern) (values : Array K) (row col : Nat) : K :=
  match pattern.slot? row col with
  | some slot => values.getD slot 0
  | none => 0

def place (pattern : Pattern) (slot : Nat) : Nat × Nat :=
  pattern.entries.getD slot (0, 0)

/-- What a slot adds to a component while its column is worked through. -/
def rowShare (pattern : Pattern) (values : Array K) (x : Nat → K)
    (slot i : Nat) : K :=
  if i = (pattern.place slot).1 then
    values.getD slot 0 * x (pattern.place slot).2
  else 0

/-- What a slot adds to the component of its column, off the diagonal. -/
def heldShare (pattern : Pattern) (values : Array K) (x : Nat → K)
    (slot : Nat) : K :=
  if (pattern.place slot).1 = (pattern.place slot).2 then 0
  else values.getD slot 0 * x (pattern.place slot).1

def share (pattern : Pattern) (values : Array K) (x : Nat → K)
    (slot i : Nat) : K :=
  pattern.rowShare values x slot i +
    if i = (pattern.place slot).2 then pattern.heldShare values x slot else 0

theorem place_eq {entry : Nat × Nat}
    (found : pattern.entries[slot]? = some entry) :
    pattern.place slot = entry := by
  rw [place, List.getD, found]
  rfl

namespace WellFormed

theorem entries_getElem? (wellFormed : pattern.WellFormed)
    (inside : slot < pattern.slotCount) :
    pattern.entries[slot]? = some (pattern.place slot) := by
  rw [← wellFormed.length_entries] at inside
  rw [List.getElem?_eq_getElem inside,
    place_eq (List.getElem?_eq_getElem inside)]

theorem valueAt_eq_sum (wellFormed : pattern.WellFormed) (i k : Nat) :
    pattern.valueAt values i k = ∑ slot ∈ Finset.range pattern.slotCount,
      if pattern.place slot = (min i k, max i k) then values.getD slot 0
      else 0 := by
  rw [valueAt]
  cases slotted : pattern.slot? i k with
  | some slot =>
      have found := wellFormed.slot?_eq_some_iff.mp slotted
      have inside : slot < pattern.slotCount := by
        rw [← wellFormed.length_entries]
        exact (List.getElem?_eq_some_iff.mp found).1
      rw [Finset.sum_eq_single_of_mem slot (Finset.mem_range.mpr inside),
        if_pos (place_eq found)]
      intro other member differs
      refine if_neg fun same => differs ?_
      have here := wellFormed.entries_getElem? (Finset.mem_range.mp member)
      rw [same] at here
      exact Option.some.inj ((wellFormed.slot?_eq_some_iff.mpr here).symm.trans
        slotted)
  | none =>
      refine (Finset.sum_eq_zero fun slot member => if_neg fun same => ?_).symm
      have here := wellFormed.entries_getElem? (Finset.mem_range.mp member)
      rw [same] at here
      rw [wellFormed.slot?_eq_some_iff.mpr here] at slotted
      cases slotted

theorem sum_place (wellFormed : pattern.WellFormed)
    (inside : slot < pattern.slotCount) (x : Nat → K) (i : Nat) :
    ∑ k ∈ Finset.range pattern.size,
      (if pattern.place slot = (min i k, max i k) then values.getD slot 0
        else 0) * x k = pattern.share values x slot i := by
  have found := wellFormed.entries_getElem? inside
  rw [share, rowShare, heldShare]
  generalize pattern.place slot = place at found
  obtain ⟨row, col⟩ := place
  obtain ⟨upper, small⟩ := wellFormed.entry_le (List.mem_of_getElem? found)
  have split (k : Nat) :
      (if (row, col) = (min i k, max i k) then values.getD slot 0 else 0) *
        x k =
      (if k = col then if i = row then values.getD slot 0 * x k else 0 else 0) +
        if k = row then if i = col then if row = col then 0
          else values.getD slot 0 * x k else 0 else 0 := by
    simp only [Prod.mk.injEq]
    split_ifs <;> first | omega | simp
  simp only [split, Finset.sum_add_distrib, Finset.sum_ite_eq']
  rw [if_pos (Finset.mem_range.mpr small),
    if_pos (Finset.mem_range.mpr (Nat.lt_of_le_of_lt upper small))]

theorem sum_valueAt (wellFormed : pattern.WellFormed) (x : Nat → K)
    (i : Nat) :
    ∑ k ∈ Finset.range pattern.size, pattern.valueAt values i k * x k =
      ∑ slot ∈ Finset.range pattern.slotCount,
        pattern.share values x slot i := by
  simp only [wellFormed.valueAt_eq_sum, Finset.sum_mul]
  rw [Finset.sum_comm]
  exact Finset.sum_congr rfl fun slot member =>
    wellFormed.sum_place (Finset.mem_range.mp member) x i

theorem sum_column (wellFormed : pattern.WellFormed) {slots : List Nat}
    (nodup : slots.Nodup)
    (entries : ∀ slot, slot ∈ slots ↔
      ∃ row, pattern.entries[slot]? = some (row, col)) (x : Nat → K)
    (i : Nat) :
    ∑ slot ∈ Finset.range pattern.slotCount,
      (if (pattern.place slot).2 = col then pattern.share values x slot i
        else 0) =
      (slots.map fun slot => pattern.rowShare values x slot i).sum +
        if i = col then (slots.map (pattern.heldShare values x)).sum
        else 0 := by
  have small (slot : Nat) (member : slot ∈ slots) :
      slot < pattern.slotCount := by
    obtain ⟨row, found⟩ := (entries slot).mp member
    rw [← wellFormed.length_entries]
    exact (List.getElem?_eq_some_iff.mp found).1
  have here {slot : Nat} (inside : slot < pattern.slotCount) :
      (pattern.place slot).2 = col ↔ slot ∈ slots := by
    rw [entries, wellFormed.entries_getElem? inside]
    simp [Prod.ext_iff]
  have each (slot : Nat) (member : slot ∈ slots) :
      pattern.share values x slot i = pattern.rowShare values x slot i +
        if i = col then pattern.heldShare values x slot else 0 := by
    rw [share, (here (small slot member)).mpr member]
  calc ∑ slot ∈ Finset.range pattern.slotCount,
        (if (pattern.place slot).2 = col then pattern.share values x slot i
          else 0)
      = (slots.map fun slot => pattern.share values x slot i).sum := by
        rw [sum_map_eq_sum_range nodup small]
        exact Finset.sum_congr rfl fun slot member =>
          if_congr (here (Finset.mem_range.mp member)) rfl rfl
    _ = _ := by
        rw [List.map_congr_left each, List.sum_map_add]
        split_ifs <;> simp

end WellFormed

end Pattern

section Product

variable {product : Array K}

structure ColumnProduct.Adds (state : ColumnProduct K) (pattern : Pattern)
    (values : Array K) (y z : Nat → K) (slots : List Nat) : Prop where
  product : Reads state.product pattern.size fun i =>
    z i + (slots.map fun slot => pattern.rowShare values y slot i).sum
  held : state.held = (slots.map (pattern.heldShare values y)).sum

theorem ColumnProduct.step_adds (wellFormed : pattern.WellFormed)
    (values_size : values.size = pattern.slotCount)
    (readsX : Reads x pattern.size y)
    (found : pattern.entries[slot]? = some (row, col))
    {state : ColumnProduct K} {slots : List Nat}
    (adds : state.Adds pattern values y z slots) :
    ∃ next, step pattern.upper.index values x col (y col) state slot =
        .ok next ∧ next.Adds pattern values y z (slots ++ [slot]) := by
  have place := Pattern.place_eq found
  obtain ⟨upper, inside⟩ := wellFormed.entry_le (List.mem_of_getElem? found)
  have component : x.getD row 0 = y row :=
    getD_of_getElem? (readsX.2 row (Nat.lt_of_le_of_lt upper inside))
  refine ⟨_, step_eq wellFormed values_size readsX.1 found adds.product.1,
    (adds.product.modify row _).congr fun i _ => ?_, ?_⟩
  · rw [List.map_append, List.sum_append, List.map_singleton,
      List.sum_singleton, Pattern.rowShare, place]
    split_ifs
    · rw [add_assoc]
    · rw [add_zero]
  · rw [List.map_append, List.sum_append, List.map_singleton,
      List.sum_singleton, Pattern.heldShare, place, ← adds.held, component]
    split_ifs
    · rw [add_zero]
    · rfl

theorem symmetricColumn_reads (wellFormed : pattern.WellFormed)
    (values_size : values.size = pattern.slotCount)
    (readsX : Reads x pattern.size y) (inside : col < pattern.size)
    (reads : Reads product pattern.size z) :
    ∃ new, symmetricColumn pattern.upper values x product col = .ok new ∧
      Reads new pattern.size fun i =>
        z i + ∑ slot ∈ Finset.range pattern.slotCount,
          if (pattern.place slot).2 = col then pattern.share values y slot i
          else 0 := by
  obtain ⟨slots, positions, nodup, entries⟩ :=
    wellFormed.exists_positions inside
  obtain ⟨final, ran, adds⟩ := @Checked.foldlM_runs _ _ _
    (ColumnProduct.step pattern.upper.index values x col (y col)) slots
    (fun done state => state.Adds pattern values y z done) ⟨product, 0⟩
    ⟨reads.congr fun i _ => (add_zero (z i)).symm, rfl⟩
    (by
      intro done slot rest state split adds
      obtain ⟨row, found⟩ := (entries slot).mp (by simp [split])
      exact ColumnProduct.step_adds wellFormed values_size readsX found adds)
  refine ⟨_, ?_, (adds.product.modify col (· + final.held)).congr
    fun i _ => ?_⟩
  · rw [symmetricColumn, readsX.get_eq inside, Checked.ok_bind, positions,
      Checked.ok_bind, ran, Checked.ok_bind]
    exact Checked.modify_eq_ok_iff.mpr ⟨by rwa [adds.product.1], rfl⟩
  · rw [wellFormed.sum_column nodup entries, adds.held]
    split_ifs
    · rw [add_assoc]
    · rw [add_zero]

theorem symmetricProduct_reads (wellFormed : pattern.WellFormed)
    (values_size : values.size = pattern.slotCount)
    (readsX : Reads x pattern.size y) {target : Array K}
    (target_size : target.size = pattern.size) :
    ∃ new, symmetricProduct pattern.upper values x target = .ok new ∧
      Reads new pattern.size fun i =>
        ∑ k ∈ Finset.range pattern.size, pattern.valueAt values i k * y k := by
  have start := reads_map_const target_size (0 : K)
  rw [symmetricProduct, wellFormed.size_start,
    Checked.sub_eq_ok (Nat.le_add_left 1 _), Checked.ok_bind,
    Nat.add_sub_cancel]
  obtain ⟨new, ran, reads⟩ := Checked.foldlM_range_runs
    (fun count product => Reads product pattern.size fun i =>
      ∑ slot ∈ Finset.range pattern.slotCount,
        if (pattern.place slot).2 < count then pattern.share values y slot i
        else 0)
    (start.congr fun i _ => (Finset.sum_eq_zero fun slot _ =>
      if_neg (Nat.not_lt_zero _)).symm)
    fun count product inside reads => by
      obtain ⟨new, ran, reads'⟩ := symmetricColumn_reads wellFormed values_size
        readsX inside reads
      refine ⟨new, ran, reads'.congr fun i _ => ?_⟩
      rw [← Finset.sum_add_distrib]
      refine Finset.sum_congr rfl fun slot _ => ?_
      split_ifs <;> first | omega | simp
  refine ⟨new, ran, reads.congr fun i _ => ?_⟩
  rw [wellFormed.sum_valueAt]
  refine Finset.sum_congr rfl fun slot member => if_pos ?_
  have found := wellFormed.entries_getElem? (Finset.mem_range.mp member)
  exact (wellFormed.entry_le (List.mem_of_getElem? found)).2

end Product

end QuasiDefinite
