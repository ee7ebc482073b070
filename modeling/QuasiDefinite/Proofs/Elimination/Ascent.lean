import Mathlib.Order.Bounds.Defs
import QuasiDefinite.Proofs.Elimination.PlainTree
import QuasiDefinite.Proofs.Elimination.Plan

namespace QuasiDefinite.Elimination

open Relation

/-- The nodes that row `row` meets on its walks, latest first, after the rows
before it have walked. -/
def metNodes (upper : Compressed) (parent : Array (Option Nat)) (row : Nat) :
    Checked (List Nat) := do
  let before ← (List.range row).foldlM (RowsSoFar.add upper parent)
    ⟨.replicate parent.size none, .empty⟩
  let metBy ← Checked.set before.metBy row (some row)
  let walk ← (← upper.list row).foldlM (Walk.climb parent row) ⟨metBy, []⟩
  return walk.cols

/-- The tree leads from a column of the factor to its first row. -/
structure LeadsToFirst (parent : Array (Option Nat)) (rows : List (List Nat))
    (col : Nat) : Prop where
  first : ∀ row, parent[col]? = some (some row) ↔
    IsLeast {row | col ∈ rowAt rows row} row
  root : parent[col]? = some none ↔ ∀ row, col ∉ rowAt rows row

/-- Row `row` walks from the entries of the matrix, each of which climbs to the
row itself. It meets its columns, each once, and each leads on to one that it
meets as well or to the row, where the walk stops. -/
structure WalksUp (upper : Compressed) (parent : Array (Option Nat))
    (rows : List (List Nat)) (row : Nat) (starts met : List Nat) :
    Prop where
  listed : upper.list row = .ok starts
  walked : metNodes upper parent row = .ok met
  columns : rowAt rows row = met.mergeSort
  nodup : met.Nodup
  onward : ∀ node ∈ met, ∃ next, parent[node]? = some (some next) ∧
    node < next ∧ next ≤ row ∧ (next = row ∨ next ∈ met)
  reaches : ∀ start ∈ starts, start < row → start ∈ met ∧
    ReflTransGen (fun low high => parent[low]? = some (some high)) start row

variable {adjacent : Nat → Nat → Prop} {size col row : Nat}
  {upper : Compressed} {parent : Array (Option Nat)} {rows : List (List Nat)}

theorem isRow_rowAt (length_eq : rows.length = size)
    (areRows : ∀ (row : Nat) (cols : List Nat), rows[row]? = some cols →
      IsRow adjacent row cols) (inside : row < size) :
    IsRow adjacent row (rowAt rows row) := by
  have found := List.getElem?_eq_getElem (length_eq.symm ▸ inside)
  rw [rowAt, List.getD_eq_getElem?_getD, found, Option.getD_some]
  exact areRows row _ found

theorem mem_rowAt (length_eq : rows.length = size)
    (areRows : ∀ (row : Nat) (cols : List Nat), rows[row]? = some cols →
      IsRow adjacent row cols)
    (bounded : ∀ node row, Fill adjacent node row → row < size) :
    col ∈ rowAt rows row ↔ Fill adjacent col row := by
  by_cases inside : row < size
  · exact (isRow_rowAt length_eq areRows inside).2 col
  · refine iff_of_false ?_ fun fill => inside (bounded col row fill)
    rw [rowAt, List.getD_eq_getElem?_getD, List.getElem?_eq_none (by omega)]
    exact List.not_mem_nil

theorem Parents.leadsToFirst (parents : Parents adjacent size parent)
    (bounded : ∀ node row, Fill adjacent node row → row < size)
    (mem_iff : ∀ col row, col ∈ rowAt rows row ↔ Fill adjacent col row)
    (inside : col < size) : LeadsToFirst parent rows col := by
  have first (row : Nat) : parent[col]? = some (some row) ↔
      IsLeast {row | col ∈ rowAt rows row} row := by
    rw [parents.getElem?_eq_some_iff fun node row isParent =>
      bounded node row isParent.1]
    refine and_congr (mem_iff col row).symm (forall_congr' fun other => ?_)
    rw [Set.mem_ofPred, mem_iff]
  refine ⟨first, ?_⟩
  have insideParent : col < parent.size := by rwa [parents.size_eq]
  have held := Array.getElem?_eq_getElem insideParent
  constructor
  · intro root row member
    obtain ⟨next, isParent, _⟩ := ((mem_iff col row).mp member).exists_parent
    have found := parents.complete col next (bounded col next isParent.1)
      isParent
    rw [root] at found
    cases found
  · intro empty
    cases found : parent[col] with
    | none => rw [held, found]
    | some next =>
        rw [found] at held
        exact absurd ((first next).mp held).1 (empty next)

theorem Parents.walksUp (columns : UpperColumns adjacent size upper)
    (parents : Parents adjacent size parent)
    (bounded : ∀ node row, Fill adjacent node row → row < size)
    (isRow : IsRow adjacent row (rowAt rows row)) (inside : row < size) :
    ∃ starts met, WalksUp upper parent rows row starts met := by
  obtain ⟨before, ran, holds⟩ := RowsSoFar.foldlM_add_runs columns parents
    (Nat.le_of_lt inside)
  obtain ⟨starts, walk, listed, walked, reaches, mem, met⟩ :=
    holds.walk_runs columns parents inside
  have insideMarks : row < before.metBy.size := by rwa [holds.size_eq]
  have sorted := isRow_mergeSort reaches.nodup mem
  refine ⟨starts, walk.cols, listed, ?_, ?_, reaches.nodup, ?_, ?_⟩
  · rw [metNodes, parents.size_eq, ran, Checked.ok_bind,
      Checked.set_eq_ok_iff.mpr ⟨insideMarks, rfl⟩, Checked.ok_bind, listed,
      Checked.ok_bind, walked]
    rfl
  · exact List.Pairwise.eq_of_mem_iff isRow.1 sorted.1 fun col =>
      (isRow.2 col).trans (sorted.2 col).symm
  · intro node member
    have fill := (mem node).mp member
    obtain ⟨next, isParent, le⟩ := fill.exists_parent
    refine ⟨next, parents.complete node next (bounded node next isParent.1)
      isParent, isParent.lt, le, ?_⟩
    exact (fill.of_parent isParent).imp_right (mem next).mpr
  · intro start listed below
    have member := (met start listed).resolve_left (Nat.ne_of_lt below)
    have held : IsParent adjacent ≤
        fun low high => parent[low]? = some (some high) :=
      fun low high isParent =>
        parents.complete low high (bounded low high isParent.1) isParent
    exact ⟨member, ReflTransGen.mono held _ _ ((mem start).mp member).climbs⟩

end QuasiDefinite.Elimination

namespace QuasiDefinite.Pattern

open Elimination

/-- A relabelled pattern has its elimination tree, which is also the one found
without shortcuts. The parent of a column is its first row in the factor, a
column without rows has none, and the rows are found by walks that never leave
the tree and meet no node twice. -/
theorem relabel_tree {pattern : Pattern} {permutation : Permutation}
    (constructed : pattern.Constructed)
    (valid : permutation.Valid pattern.size) :
    ∃ moved parent rows, pattern.relabel permutation.place = .ok moved ∧
      tree pattern.size moved.pattern.upper = .ok parent ∧
      plainTree pattern.size moved.pattern.upper = .ok parent ∧
      rowColumns pattern.size moved.pattern.upper parent =
        .ok (.ofLists rows) ∧
      (∀ col row, col ∈ rowAt rows row ↔
        Fill (pattern.Joins permutation.order) col row) ∧
      (∀ col, col < pattern.size → LeadsToFirst parent rows col) ∧
      ∀ row, row < pattern.size → ∃ starts met,
        WalksUp moved.pattern.upper parent rows row starts met := by
  have wellFormed := wellFormed_of_constructed constructed
  obtain ⟨moved, moves, relabels⟩ := relabel_runs wellFormed valid
  have columns := relabels.upperColumns wellFormed valid
  have bounded (node row : Nat)
      (fill : Fill (pattern.Joins permutation.order) node row) :
      row < pattern.size := Plan.lt_of_fill valid.order_size fill
  obtain ⟨parent, grows, parents⟩ := tree_runs columns
  obtain ⟨rows, found, length_eq, areRows⟩ := rowColumns_runs columns parents
  have mem_iff (col row : Nat) : col ∈ rowAt rows row ↔
      Fill (pattern.Joins permutation.order) col row :=
    mem_rowAt length_eq areRows bounded
  refine ⟨moved, parent, rows, moves, grows, ?_, found, mem_iff, ?_, ?_⟩
  · rw [plainTree_eq columns fun node row isParent =>
      bounded node row isParent.1, grows]
  · intro col inside
    exact parents.leadsToFirst bounded mem_iff inside
  · intro row inside
    exact parents.walksUp columns bounded
      (isRow_rowAt length_eq areRows inside) inside

theorem relabel_tree_arrow :
    let pattern : Pattern := ⟨4, ⟨#[0, 1, 3, 5, 7], #[0, 0, 1, 0, 2, 0, 3]⟩⟩
    ∃ moved parent rows, pattern.relabel #[1, 3, 0, 2] = .ok moved ∧
      tree 4 moved.pattern.upper = .ok parent ∧
      plainTree 4 moved.pattern.upper = .ok parent ∧
      rowColumns 4 moved.pattern.upper parent = .ok (.ofLists rows) ∧
      ∀ col, col < 4 → LeadsToFirst parent rows col := by
  intro pattern
  obtain ⟨_, valid⟩ := Permutation.ofOrder_valid
    (by decide : Permutation.ofOrder #[2, 0, 3, 1] =
      .ok ⟨#[2, 0, 3, 1], #[1, 3, 0, 2]⟩)
  obtain ⟨moved, parent, rows, moves, grows, plain, found, _, first, _⟩ :=
    @relabel_tree pattern ⟨#[2, 0, 3, 1], #[1, 3, 0, 2]⟩
      (.upper (by cbv : Pattern.ofUpperEntries 4 [(0, 1), (0, 2), (0, 3)] =
        .ok ⟨4, ⟨#[0, 1, 3, 5, 7], #[0, 0, 1, 0, 2, 0, 3]⟩⟩)) valid
  exact ⟨moved, parent, rows, moves, grows, plain, found, first⟩

end QuasiDefinite.Pattern
