import QuasiDefinite.Scalar

/-!
The blocks of a system. The unknowns come in the order `x`, `s`, `z`, `y`: the
primal variables, the slacks of the inequalities, their multipliers and the
multipliers of the equalities. The rows of `x` and `s` have positive pivots,
those of `z` and `y` negative ones.
-/

namespace QuasiDefinite

/-- The blocks that are problem data. -/
inductive Block where
  | cost
  | equality
  | inequality
  deriving Repr, DecidableEq

def Block.name : Block → String
  | cost => "cost matrix P"
  | equality => "equality Jacobian A"
  | inequality => "inequality Jacobian G"

structure Layout where
  primal : Nat
  equalities : Nat
  inequalities : Nat
  deriving Repr, DecidableEq

/-- A vector cut at the borders of the blocks of unknowns. -/
structure Parts (α : Type) where
  x : Array α
  s : Array α
  z : Array α
  y : Array α
  deriving Repr

def Parts.join {α : Type} (parts : Parts α) : Array α :=
  parts.x ++ parts.s ++ parts.z ++ parts.y

namespace Layout

def size (layout : Layout) : Nat :=
  layout.primal + 2 * layout.inequalities + layout.equalities

/-- The first index of each block of unknowns. -/
def slackStart (layout : Layout) : Nat :=
  layout.primal

def inequalityStart (layout : Layout) : Nat :=
  layout.primal + layout.inequalities

def equalityStart (layout : Layout) : Nat :=
  layout.primal + 2 * layout.inequalities

/-! The blocks of unknowns as half open ranges of indices. -/

def xRange (layout : Layout) : Nat × Nat :=
  (0, layout.slackStart)

def sRange (layout : Layout) : Nat × Nat :=
  (layout.slackStart, layout.inequalityStart)

def zRange (layout : Layout) : Nat × Nat :=
  (layout.inequalityStart, layout.equalityStart)

def yRange (layout : Layout) : Nat × Nat :=
  (layout.equalityStart, layout.size)

def signs (layout : Layout) : Array Sign :=
  .replicate (layout.primal + layout.inequalities) .positive ++
    .replicate (layout.inequalities + layout.equalities) .negative

@[simp] theorem size_signs (layout : Layout) :
    layout.signs.size = layout.size := by
  simp only [signs, size, Array.size_append, Array.size_replicate]
  omega

def shape (layout : Layout) : Block → Nat × Nat
  | .cost => (layout.primal, layout.primal)
  | .equality => (layout.equalities, layout.primal)
  | .inequality => (layout.inequalities, layout.primal)

/-- Where an entry of a block comes to lie in the upper triangle of the system.
The Jacobians are transposed; of the cost only the upper triangle counts. -/
def position (layout : Layout) (block : Block) (row col : Nat) :
    Option (Nat × Nat) :=
  match block with
  | .cost => if row ≤ col then some (row, col) else none
  | .equality => some (col, layout.equalityStart + row)
  | .inequality => some (col, layout.inequalityStart + row)

variable {α : Type}

def cut (layout : Layout) (vector : Array α) : Parts α :=
  let slack := layout.slackStart
  let inequality := layout.inequalityStart
  let equality := layout.equalityStart
  ⟨vector.extract 0 slack, vector.extract slack inequality,
    vector.extract inequality equality, vector.extract equality layout.size⟩

theorem join_cut {layout : Layout} {vector : Array α}
    (fits : vector.size = layout.size) :
    (layout.cut vector).join = vector := by
  have bound : layout.primal + 2 * layout.inequalities ≤ vector.size := by
    rw [fits, size]
    omega
  simp only [cut, Parts.join, slackStart, inequalityStart, equalityStart,
    ← fits]
  rw [Array.extract_append_extract, Nat.zero_min,
    Nat.max_eq_right (by omega), Array.extract_append_extract, Nat.zero_min,
    Nat.max_eq_right (by omega), Array.extract_append_extract, Nat.zero_min,
    Nat.max_eq_right bound, Array.extract_size]

end Layout

end QuasiDefinite
