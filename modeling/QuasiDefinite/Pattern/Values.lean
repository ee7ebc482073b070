import QuasiDefinite.Error

namespace QuasiDefinite.Pattern

variable {α : Type} [Scalar α]

def gatherEntry (pattern : Pattern) (values : Array α)
    (entry : Nat × Nat × α) : Except (Error α) (Array α) :=
  let (row, col, value) := entry
  if col < row then .ok values
  else match pattern.slot? row col with
    | some slot => .ok (values.modify slot (· + value))
    | none => .error (.configuration (.foreignEntry row col))

/-- The values of a matrix, slot by slot. The larger of its two dimensions is
reported where they do not fit. -/
def gather (pattern : Pattern) (matrix : Sparse α) :
    Except (Error α) (Array α) := do
  if matrix.rows ≠ pattern.size ∨ matrix.cols ≠ pattern.size then
    throw (.dimension .gatheredMatrix pattern.size
      (max matrix.rows matrix.cols))
  matrix.entries.foldlM pattern.gatherEntry (.replicate pattern.slotCount 0)

def toMatrix (pattern : Pattern) (values : Array α) :
    Checked (Sparse α) :=
  Sparse.ofUpperTriplets .byColumn pattern.size
    ((pattern.entries.zip values.toList).map fun ((row, col), value) =>
      (row, col, value))

end QuasiDefinite.Pattern
