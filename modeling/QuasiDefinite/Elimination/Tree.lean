import QuasiDefinite.Compressed

/-!
The elimination tree. The parent of a column is the first row below it in the
factor. It is found column by column: every entry above the diagonal climbs
from its row to the root it belongs to so far, and that root becomes a child of
the column.
-/

namespace QuasiDefinite.Elimination

/-- Parents found so far, and for every node a shortcut towards its root.
Climbing redirects the shortcuts it uses to the column at hand. -/
structure Forest where
  parent : Array (Option Nat)
  shortcut : Array (Option Nat)
  deriving Repr

def Forest.isolated (size : Nat) : Forest :=
  ⟨.replicate size none, .replicate size none⟩

/-- Climbs from `node` to its root and makes the root a child of `col`. A
shortcut leads upwards, so the climb ends at `col` at the latest. -/
def Forest.attach (col : Nat) (forest : Forest) (node : Nat) :
    Checked Forest :=
  if _ : node < col then do
    let next ← Checked.get forest.shortcut node
    let shortcut ← Checked.set forest.shortcut node (some col)
    match next with
    | none =>
        let parent ← Checked.set forest.parent node (some col)
        return ⟨parent, shortcut⟩
    | some next =>
        if _ : node < next then
          Forest.attach col ⟨forest.parent, shortcut⟩ next
        else throw (.notAscending node next)
  else return forest
termination_by col - node

def Forest.addColumn (upper : Compressed) (forest : Forest) (col : Nat) :
    Checked Forest := do
  (← upper.list col).foldlM (Forest.attach col) forest

/-- The parent of every column of an upper triangle; a root has none. -/
def tree (size : Nat) (upper : Compressed) :
    Checked (Array (Option Nat)) := do
  let forest ← (List.range size).foldlM (Forest.addColumn upper)
    (.isolated size)
  return forest.parent

end QuasiDefinite.Elimination
