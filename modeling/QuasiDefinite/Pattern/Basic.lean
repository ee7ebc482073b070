import QuasiDefinite.Compressed

/-!
The pattern of a symmetric matrix: its upper triangle in compressed columns.
Each column lists its rows in ascending order and ends with its own index, so
every diagonal entry has a slot. Values live outside the pattern, in arrays
aligned with the slots.
-/

namespace QuasiDefinite

structure Pattern where
  size : Nat
  upper : Compressed
  deriving Repr, DecidableEq, Inhabited

namespace Pattern

/-- The rows of one column of a pattern: ascending, its own index last. -/
def IsColumn (col : Nat) (rows : List Nat) : Prop :=
  rows.Pairwise (· < ·) ∧ rows.getLast? = some col

def ofColumns (columns : List (List Nat)) : Pattern :=
  ⟨columns.length, .ofLists columns⟩

/-- What every constructor establishes. -/
def WellFormed (pattern : Pattern) : Prop :=
  ∃ columns : List (List Nat), pattern = ofColumns columns ∧
    ∀ (col : Nat) (rows : List Nat), columns[col]? = some rows →
      IsColumn col rows

def slotCount (pattern : Pattern) : Nat :=
  pattern.upper.index.size

def offDiagonalCount (pattern : Pattern) : Nat :=
  pattern.slotCount - pattern.size

/-- The first slot of column `col`, and past the last column the number of
slots. -/
def first (pattern : Pattern) (col : Nat) : Nat :=
  pattern.upper.start.getD col 0

def column (pattern : Pattern) (col : Nat) : List Nat :=
  (pattern.upper.index.extract (pattern.first col)
    (pattern.first (col + 1))).toList

def diagonalSlot (pattern : Pattern) (col : Nat) : Nat :=
  pattern.first (col + 1) - 1

/-- The slot of an entry, given from either triangle. -/
def slot? (pattern : Pattern) (row col : Nat) : Option Nat :=
  let (low, high) := (min row col, max row col)
  if high < pattern.size then
    ((pattern.column high).idxOf? low).map (pattern.first high + ·)
  else none

def entries (pattern : Pattern) : List (Nat × Nat) :=
  (List.range pattern.size).flatMap fun col =>
    (pattern.column col).map fun row => (row, col)

end Pattern

end QuasiDefinite
