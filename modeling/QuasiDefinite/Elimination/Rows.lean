import QuasiDefinite.Elimination.Tree

/-!
The rows of the factor. Row `k` has an entry in every column that is met when
the entries above the diagonal of column `k` walk up the elimination tree as
far as `k`.
-/

namespace QuasiDefinite.Elimination

/-- One row in the making: which row met a node last, and the columns this row
has met. -/
structure Walk where
  metBy : Array (Option Nat)
  cols : List Nat
  deriving Repr

/-- Walks up the tree from `node` to the first node that row `row` has met. -/
def Walk.climb (parent : Array (Option Nat)) (row : Nat) :
    Walk → Nat → Checked Walk
  | ⟨metBy, cols⟩, node =>
      if inside : node < metBy.size then
        if metBy[node] = some row then return ⟨metBy, cols⟩
        else do
          let metBy' := metBy.set node (some row) inside
          match ← Checked.get parent node with
          | none => return ⟨metBy', node :: cols⟩
          | some next =>
              if _ : node < next then
                Walk.climb parent row ⟨metBy', node :: cols⟩ next
              else throw (.notAscending node next)
      else throw (.outside node metBy.size)
termination_by walk node => walk.metBy.size - node
decreasing_by
  simp only [Array.size_set]
  omega

structure RowsSoFar where
  metBy : Array (Option Nat)
  rows : Compressed

def RowsSoFar.add (upper : Compressed) (parent : Array (Option Nat))
    (state : RowsSoFar) (row : Nat) : Checked RowsSoFar := do
  let ⟨metBy, rows⟩ := state
  let metBy ← Checked.set metBy row (some row)
  let ⟨metBy, cols⟩ ← (← upper.list row).foldlM (Walk.climb parent row)
    ⟨metBy, []⟩
  return ⟨metBy, rows.push cols.mergeSort⟩

/-- The columns of every row of the factor below the diagonal, ascending. -/
def rowColumns (size : Nat) (upper : Compressed)
    (parent : Array (Option Nat)) : Checked Compressed := do
  let state ← (List.range size).foldlM (RowsSoFar.add upper parent)
    ⟨.replicate size none, .empty⟩
  return state.rows

end QuasiDefinite.Elimination
