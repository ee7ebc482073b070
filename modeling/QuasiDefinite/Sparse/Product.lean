import QuasiDefinite.Compressed
import QuasiDefinite.Scalar

namespace QuasiDefinite

variable {α : Type} [Scalar α]

/-- Adds up the products of the entries in pairs; the shorter vector ends the
sum. -/
@[specialize]
def dot (left right : Array α) : α :=
  Scalar.sum ((left.toList.zip right.toList).map fun (x, y) => x * y)

@[specialize]
def normSq (vector : Array α) : α :=
  dot vector vector

/-- The running state of one column: the product so far and the part of the
column's own component that is held back until the column is done. -/
structure ColumnProduct (α : Type) where
  product : Array α
  held : α

@[specialize]
def ColumnProduct.step (index : Array Nat) (values x : Array α)
    (col : Nat) (xCol : α) (state : ColumnProduct α) (slot : Nat) :
    Checked (ColumnProduct α) := do
  let ⟨product, held⟩ := state
  let row ← Checked.get index slot
  let value ← Checked.get values slot
  let product ← Checked.modify product row (· + value * xCol)
  if row = col then return ⟨product, held⟩
  else
    let xRow ← Checked.get x row
    return ⟨product, held + value * xRow⟩

@[specialize]
def symmetricColumn (upper : Compressed) (values x : Array α)
    (product : Array α) (col : Nat) : Checked (Array α) := do
  let xCol ← Checked.get x col
  let slots ← upper.positions col
  let ⟨product, held⟩ ← slots.foldlM
    (ColumnProduct.step upper.index values x col xCol) ⟨product, 0⟩
  Checked.modify product col (· + held)

/-- The product of a symmetric matrix with `x`, written over `target`. Entries
of `target` beyond the matrix become zero. -/
@[specialize]
def symmetricProduct (upper : Compressed) (values x target : Array α) :
    Checked (Array α) := do
  let size ← Checked.sub upper.start.size 1
  (List.range size).foldlM (symmetricColumn upper values x)
    (target.map fun _ => 0)

end QuasiDefinite
