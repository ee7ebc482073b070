import QuasiDefinite.Compressed
import QuasiDefinite.Scalar

/-!
Sparse matrices. A matrix is stored by column or by row; each stored line holds
its entries by ascending position, and a stored zero stays an entry. Coordinate
triplets that name the same entry are added up in their order.
-/

namespace QuasiDefinite

inductive Storage where
  | byColumn
  | byRow
  deriving Repr, DecidableEq

structure Sparse (α : Type) where
  rows : Nat
  cols : Nat
  storage : Storage
  lines : Array (List (Nat × α))
  deriving Repr

namespace Sparse

variable {α : Type}

/-- Adds `value` at `position` of a line. -/
def addAt [Add α] (position : Nat) (value : α) :
    List (Nat × α) → List (Nat × α)
  | [] => [(position, value)]
  | (place, stored) :: rest =>
      if position < place then (position, value) :: (place, stored) :: rest
      else if position = place then (place, stored + value) :: rest
      else (place, stored) :: addAt position value rest

def empty (storage : Storage) (rows cols : Nat) : Sparse α :=
  { rows, cols, storage
    lines := Array.replicate
      (match storage with | .byColumn => cols | .byRow => rows) [] }

def add [Add α] (matrix : Sparse α) (row col : Nat) (value : α) :
    Checked (Sparse α) := do
  if matrix.rows ≤ row then throw (.outside row matrix.rows)
  if matrix.cols ≤ col then throw (.outside col matrix.cols)
  let (line, position) := match matrix.storage with
    | .byColumn => (col, row)
    | .byRow => (row, col)
  let lines ← Checked.modify matrix.lines line (addAt position value)
  return { matrix with lines }

def ofTriplets [Add α] (storage : Storage) (rows cols : Nat)
    (triplets : List (Nat × Nat × α)) : Checked (Sparse α) :=
  triplets.foldlM
    (fun matrix (row, col, value) => matrix.add row col value)
    (empty storage rows cols)

/-- A symmetric matrix, of which the upper triangle alone is given. -/
def ofUpperTriplets [Add α] (storage : Storage) (size : Nat)
    (triplets : List (Nat × Nat × α)) : Checked (Sparse α) := do
  triplets.forM fun (row, col, _) =>
    if col < row then throw (Fault.belowDiagonal row col) else pure ()
  ofTriplets storage size size triplets

/-! Views in the order of storage. -/

def entries (matrix : Sparse α) : List (Nat × Nat × α) :=
  matrix.lines.toList.zipIdx.flatMap fun (line, k) =>
    line.map fun (position, value) => match matrix.storage with
      | .byColumn => (position, k, value)
      | .byRow => (k, position, value)

def support (matrix : Sparse α) : List (List Nat) :=
  matrix.lines.toList.map fun line => line.map Prod.fst

def compressed (matrix : Sparse α) : Compressed :=
  .ofLists matrix.support

def values (matrix : Sparse α) : List α :=
  matrix.entries.map fun (_, _, value) => value

def entryCount (matrix : Sparse α) : Nat :=
  total (matrix.lines.toList.map List.length)

def sameStructure (left right : Sparse α) : Bool :=
  left.rows == right.rows && left.cols == right.cols &&
    left.storage == right.storage && left.support == right.support

end Sparse

end QuasiDefinite
