import QuasiDefinite.Compressed

/-!
The schedule of an elimination. The factor is stored by column, and a row is
worked through by ascending column; the schedule names, for every column of a
row, the slot of the entry in the column.
-/

namespace QuasiDefinite.Elimination

/-- One column of a row and the slot of the entry they share. -/
structure Step where
  col : Nat
  slot : Nat
  deriving Repr, DecidableEq, Inhabited

/-- The slot that comes next in every column, the rows of the slots taken, and
the slots of the entries that have one. -/
structure Filling where
  next : Array Nat
  rowOf : Array Nat
  slots : Array Nat

/-- Gives the entry of `row` at `position` the next slot of its column. -/
def Filling.place (cols : Array Nat) (row : Nat) (filling : Filling)
    (position : Nat) : Checked Filling := do
  let ⟨next, rowOf, slots⟩ := filling
  let col ← Checked.get cols position
  let slot ← Checked.get next col
  let rowOf ← Checked.set rowOf slot row
  let slots ← Checked.set slots position slot
  let next ← Checked.set next col (slot + 1)
  return ⟨next, rowOf, slots⟩

def Filling.addRow (rows : Compressed) (filling : Filling) (row : Nat) :
    Checked Filling := do
  (← rows.positions row).foldlM (Filling.place rows.index row) filling

structure Schedule where
  lower : Compressed
  slots : Array Nat
  deriving Repr, DecidableEq, Inhabited

/-- The schedule of `size` rows whose columns are listed. -/
def Schedule.ofRows (size : Nat) (rows : Compressed) : Checked Schedule := do
  let start ← Compressed.starts size rows.index
  let next ← Checked.slice start 0 size
  let blank := Array.replicate rows.index.size 0
  let filling ← (List.range size).foldlM (Filling.addRow rows)
    ⟨next.toArray, blank, blank⟩
  return ⟨⟨start, filling.rowOf⟩, filling.slots⟩

end QuasiDefinite.Elimination
