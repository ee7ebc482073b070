import QuasiDefinite.Pattern.Basic
import QuasiDefinite.Sparse.Basic

namespace QuasiDefinite.Pattern

inductive Flaw where
  | outOfRange (row col size : Nat)
  | belowDiagonal (row col : Nat)
  | unmatched (row col : Nat)
  | notSquare (rows cols : Nat)
  | startLength (found wanted : Nat)
  | startEnds (count first last : Nat)
  | startDecreases (col : Nat)
  | notIncreasing (col : Nat)
  | noDiagonal (col : Nat)
  deriving Repr, DecidableEq

namespace Flaw

private def pair (row col : Nat) : String :=
  s!"({row}, {col})"

def message : Flaw → String
  | outOfRange row col size =>
      s!"entry {pair row col} out of range for dimension {size}"
  | belowDiagonal row col =>
      s!"entry {pair row col} lies below the diagonal of an upper-triangle "
        ++ "pattern"
  | unmatched row col =>
      s!"pattern is not symmetric: entry {pair row col} has no mirror"
  | notSquare rows cols =>
      s!"pattern must be square, got {rows}x{cols}"
  | startLength found wanted =>
      s!"col_ptr length {found} != n+1 = {wanted}"
  | startEnds count first last =>
      s!"col_ptr must start at 0 and end at nnz = {count}, got "
        ++ s!"{first}..{last}"
  | startDecreases col => s!"col_ptr decreases at column {col}"
  | notIncreasing col =>
      s!"row indices of column {col} are not strictly increasing"
  | noDiagonal col => s!"column {col} has no diagonal slot"

end Flaw

/-! Strictly ascending lists as sets. -/

def insertRow (row : Nat) : List Nat → List Nat
  | [] => [row]
  | other :: rest =>
      if row < other then row :: other :: rest
      else if row = other then other :: rest
      else other :: insertRow row rest

theorem mem_insertRow {row other : Nat} {rows : List Nat} :
    other ∈ insertRow row rows ↔ other = row ∨ other ∈ rows := by
  induction rows with
  | nil => simp [insertRow]
  | cons head rest ih =>
      simp only [insertRow]
      split
      · simp
      · split
        · next equal => subst equal; simp
        · simp only [List.mem_cons, ih]
          constructor <;> rintro (h | h | h) <;> simp [h]

theorem pairwise_insertRow {row : Nat} {rows : List Nat}
    (ascending : rows.Pairwise (· < ·)) :
    (insertRow row rows).Pairwise (· < ·) := by
  induction rows with
  | nil => simp [insertRow]
  | cons head rest ih =>
      rw [List.pairwise_cons] at ascending
      simp only [insertRow]
      split
      · next below =>
        refine List.pairwise_cons.mpr ⟨fun other member => ?_,
          List.pairwise_cons.mpr ascending⟩
        rcases List.mem_cons.mp member with rfl | member
        · exact below
        · exact Nat.lt_trans below (ascending.1 other member)
      · split
        · exact List.pairwise_cons.mpr ascending
        · refine List.pairwise_cons.mpr ⟨fun other member => ?_,
            ih ascending.2⟩
          rcases mem_insertRow.mp member with rfl | member
          · omega
          · exact ascending.1 other member

theorem getLast?_insertRow {row col : Nat} {rows : List Nat}
    (ends : rows.getLast? = some col) (small : row ≤ col) :
    (insertRow row rows).getLast? = some col := by
  induction rows with
  | nil => simp at ends
  | cons head rest ih =>
      simp only [insertRow]
      split
      · rw [List.getLast?_cons_cons]
        exact ends
      · split
        · exact ends
        · cases rest with
          | nil =>
              simp only [List.getLast?_singleton, Option.some.injEq] at ends
              omega
          | cons next rest =>
              rw [List.getLast?_cons_cons] at ends
              rw [List.getLast?_cons, ih ends]
              rfl

theorem isColumn_insertRow {row col : Nat} {rows : List Nat}
    (column : IsColumn col rows) (upper : row ≤ col) :
    IsColumn col (insertRow row rows) :=
  ⟨pairwise_insertRow column.1, getLast?_insertRow column.2 upper⟩

def diagonalColumns (size : Nat) : Array (List Nat) :=
  (Array.range size).map fun col => [col]

def checkRange (size row col : Nat) : Except Flaw Unit :=
  if row < size ∧ col < size then .ok ()
  else .error (.outOfRange row col size)

def checkUpper (size row col : Nat) : Except Flaw Unit := do
  checkRange size row col
  if col < row then throw (.belowDiagonal row col)

def ofUpperEntries (size : Nat) (entries : List (Nat × Nat)) :
    Except Flaw Pattern := do
  entries.forM fun (row, col) => checkUpper size row col
  return ofColumns (entries.foldl
    (fun columns (row, col) => columns.modify col (insertRow row))
    (diagonalColumns size)).toList

/-- The two triangles of a full matrix, the lower one mirrored. -/
structure Triangles where
  upper : Array (List Nat)
  lower : Array (List Nat)

def Triangles.place (triangles : Triangles) (row col : Nat) : Triangles :=
  let ⟨upper, lower⟩ := triangles
  if row ≤ col then ⟨upper.modify col (insertRow row), lower⟩
  else ⟨upper, lower.modify row (insertRow col)⟩

/-- The row reported for a column whose two mirrored lists differ: the first
that only the upper triangle has, else the first that only the lower has. -/
def firstUnmatched (col : Nat) (above below : List Nat) : Nat :=
  ((above.find? (! below.contains ·)).or
    (below.find? (! above.contains ·))).getD col

/-- A full matrix given by coordinates; `(row, col)` must be present exactly
when `(col, row)` is. -/
def ofFullEntries (size : Nat) (entries : List (Nat × Nat)) :
    Except Flaw Pattern := do
  entries.forM fun (row, col) => checkRange size row col
  let ⟨upper, lower⟩ := entries.foldl
    (fun triangles (row, col) => Triangles.place triangles row col)
    ⟨diagonalColumns size, diagonalColumns size⟩
  (upper.toList.zip lower.toList).zipIdx.forM fun ((above, below), col) =>
    if above = below then pure ()
    else throw (Flaw.unmatched (firstUnmatched col above below) col)
  return ofColumns upper.toList

/-! Matrices. A matrix without entries below the diagonal stands for its upper
triangle, any other for a full symmetric matrix. -/

def ofMatrix {α : Type} (matrix : Sparse α) : Except Flaw Pattern := do
  if matrix.rows ≠ matrix.cols then
    throw (.notSquare matrix.rows matrix.cols)
  let entries := matrix.entries.map fun (row, col, _) => (row, col)
  if entries.all fun (row, col) => row ≤ col then
    ofUpperEntries matrix.rows entries
  else
    ofFullEntries matrix.rows entries

def checkColumn (col : Nat) (rows : List Nat) : Except Flaw Unit := do
  if (rows.zip rows.tail).any fun (row, next) => next ≤ row then
    throw (.notIncreasing col)
  match rows.getLast? with
  | some last =>
      if last = col then pure ()
      else if col < last then throw (.belowDiagonal last col)
      else throw (.noDiagonal col)
  | none => throw (.noDiagonal col)

def checkStored (upper : Compressed) (col : Nat) :
    Checked (Except Flaw Unit) := do
  let first ← Checked.get upper.start col
  let last ← Checked.get upper.start (col + 1)
  if last < first then return .error (.startDecreases col)
  let rows ← Checked.slice upper.index first last
  return checkColumn col rows

def checkAllStored (upper : Compressed) :
    List Nat → Checked (Except Flaw Unit)
  | [] => return .ok ()
  | col :: rest => do
      match ← checkStored upper col with
      | .error flaw => return .error flaw
      | .ok () => checkAllStored upper rest

/-- Adopts compressed columns as they are. Starts that leave the array of rows
before a flaw is found are a fault. -/
def ofCompressed (size : Nat) (upper : Compressed) :
    Checked (Except Flaw Pattern) := do
  if upper.start.size ≠ size + 1 then
    return .error (.startLength upper.start.size (size + 1))
  let count := upper.index.size
  let first ← Checked.get upper.start 0
  let last ← Checked.get upper.start size
  if first ≠ 0 ∨ last ≠ count then
    return .error (.startEnds count first last)
  return (← checkAllStored upper (List.range size)).map fun () => ⟨size, upper⟩

end QuasiDefinite.Pattern
