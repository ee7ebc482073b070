import QuasiDefinite.Pattern.Basic

namespace QuasiDefinite

/-- An entry of the relabelled pattern and the slot it comes from. -/
structure Moved where
  col : Nat
  row : Nat
  slot : Nat
  deriving Repr, DecidableEq

def Moved.precedes (left right : Moved) : Bool :=
  decide (left.col < right.col) || left.col == right.col &&
    (decide (left.row < right.row) || left.row == right.row &&
      decide (left.slot ≤ right.slot))

structure Relabelled where
  pattern : Pattern
  /-- The new slot of every old slot. -/
  slot : Array Nat
  deriving Repr

namespace Pattern

def moveEntry (place : Array Nat) (entry : (Nat × Nat) × Nat) :
    Checked Moved := do
  let ((row, col), slot) := entry
  let row ← Checked.get place row
  let col ← Checked.get place col
  return ⟨max row col, min row col, slot⟩

/-- The pattern with index `i` renamed to `place[i]`. -/
def relabel (pattern : Pattern) (place : Array Nat) :
    Checked Relabelled := do
  let moved ← pattern.entries.zipIdx.mapM (moveEntry place)
  let sorted := moved.mergeSort Moved.precedes
  let start ← Compressed.starts pattern.size (sorted.map Moved.col).toArray
  let slot ← sorted.zipIdx.foldlM
    (fun slots (entry, rank) => Checked.set slots entry.slot rank)
    (Array.replicate sorted.length 0)
  return ⟨⟨pattern.size, start, (sorted.map Moved.row).toArray⟩, slot⟩

end Pattern

end QuasiDefinite
