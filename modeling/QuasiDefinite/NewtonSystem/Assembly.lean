import QuasiDefinite.Pattern.Values
import QuasiDefinite.Reply

/-!
The system of one Newton step, with rows and columns `x`, `s`, `z`, `y`:

    P  0  Gᵀ Aᵀ
    0  Σ  I  0
    G  I  0  0
    A  0  0  0

Its pattern is fixed by the blocks it is assembled from. Later blocks may bring
other values, but no other structure, and the barrier diagonal `Σ` is written
anew in every iteration. Of the cost `P` the upper triangle counts.
-/

namespace QuasiDefinite

/-- The problem data; a block that is absent is zero. -/
structure Blocks (α : Type) where
  cost : Option (Sparse α)
  equality : Option (Sparse α)
  inequality : Option (Sparse α)
  deriving Repr

namespace Blocks

variable {α : Type}

def get (blocks : Blocks α) : Block → Option (Sparse α)
  | .cost => blocks.cost
  | .equality => blocks.equality
  | .inequality => blocks.inequality

def set (blocks : Blocks α) (block : Block) (matrix : Sparse α) : Blocks α :=
  match block with
  | .cost => { blocks with cost := some matrix }
  | .equality => { blocks with equality := some matrix }
  | .inequality => { blocks with inequality := some matrix }

end Blocks

/-- The slots of the entries of every block, in the order in which the block
stores them; an entry that does not count has none. -/
structure SlotMap where
  cost : List (Option Nat)
  equality : List (Option Nat)
  inequality : List (Option Nat)
  barrier : List Nat
  /-- The identity between slacks and multipliers. -/
  slack : List Nat
  deriving Repr, DecidableEq

def SlotMap.get (slots : SlotMap) : Block → List (Option Nat)
  | .cost => slots.cost
  | .equality => slots.equality
  | .inequality => slots.inequality

structure NewtonSystem (α : Type) where
  layout : Layout
  pattern : Pattern
  slots : SlotMap
  values : Array α
  blocks : Blocks α
  /-- How often problem data were replaced. -/
  revision : Nat
  deriving Repr

variable {α : Type}

/-- The places in the system of the entries of a block. -/
def Layout.positions (layout : Layout) (block : Block)
    (matrix : Option (Sparse α)) : List (Option (Nat × Nat)) :=
  (matrix.elim [] Sparse.entries).map fun (row, col, _) =>
    layout.position block row col

def Layout.slackPositions (layout : Layout) : List (Nat × Nat) :=
  (List.range layout.inequalities).map fun i =>
    (layout.slackStart + i, layout.inequalityStart + i)

/-- The places of all entries, the diagonal apart. -/
def Layout.allPositions (layout : Layout) (blocks : Blocks α) :
    List (Nat × Nat) :=
  [Block.cost, .equality, .inequality].flatMap
    (fun block => (layout.positions block (blocks.get block)).filterMap id)
    ++ layout.slackPositions

def slotOf (pattern : Pattern) (row col : Nat) : Except (Error α) Nat :=
  match pattern.slot? row col with
  | some slot => .ok slot
  | none => .error (.configuration (.missingEntry row col))

def blockSlots (pattern : Pattern) (layout : Layout) (blocks : Blocks α)
    (block : Block) : Except (Error α) (List (Option Nat)) :=
  (layout.positions block (blocks.get block)).mapM fun
    | some (row, col) => (slotOf pattern row col).map some
    | none => .ok none

def SlotMap.make (pattern : Pattern) (layout : Layout) (blocks : Blocks α) :
    Except (Error α) SlotMap := do
  let cost ← blockSlots pattern layout blocks .cost
  let equality ← blockSlots pattern layout blocks .equality
  let inequality ← blockSlots pattern layout blocks .inequality
  let slack ← layout.slackPositions.mapM fun (row, col) =>
    slotOf pattern row col
  let barrier := (List.range layout.inequalities).map fun i =>
    pattern.diagonalSlot (layout.slackStart + i)
  return { cost, equality, inequality, barrier, slack }

def writeSlots (slots : List Nat) (new : List α) (values : Array α) :
    Array α :=
  (slots.zip new).foldl
    (fun values (slot, value) => values.setIfInBounds slot value) values

/-- Writes the values of a block; those without a slot are passed over. -/
def writeBlock (slots : List (Option Nat)) (matrix : Option (Sparse α))
    (values : Array α) : Array α :=
  (slots.zip (matrix.elim [] Sparse.values)).foldl
    (fun values (slot, value) => match slot with
      | some slot => values.setIfInBounds slot value
      | none => values)
    values

def checkShape (layout : Layout) (block : Block)
    (matrix : Option (Sparse α)) : Except (Error α) Unit :=
  match matrix with
  | none => .ok ()
  | some matrix => do
      let (rows, cols) := layout.shape block
      checkLength (.block block) rows matrix.rows
      checkLength (.block block) cols matrix.cols

namespace NewtonSystem

variable [Scalar α]

/-- Assembles a system. The barrier diagonal starts as the identity. -/
def assemble (layout : Layout) (blocks : Blocks α) :
    Except (Error α) (NewtonSystem α × List (Event α)) := do
  [Block.cost, .equality, .inequality].forM fun block =>
    checkShape layout block (blocks.get block)
  let pattern ←
    (Pattern.ofUpperEntries layout.size (layout.allPositions blocks)).mapError
      fun flaw => Error.configuration (.pattern flaw)
  let slots ← SlotMap.make pattern layout blocks
  let ones := List.replicate layout.inequalities 1
  let values := [Block.cost, .equality, .inequality].foldl
    (fun values block =>
      writeBlock (slots.get block) (blocks.get block) values)
    (.replicate pattern.slotCount 0)
  let values := writeSlots slots.barrier ones
    (writeSlots slots.slack ones values)
  return ({ layout, pattern, slots, values, blocks, revision := 0 },
    [.assembled layout pattern.slotCount])

def signs (system : NewtonSystem α) : Array Sign :=
  system.layout.signs

def setBarrier (system : NewtonSystem α) (diagonal : Array α) :
    Reply α (NewtonSystem α) Unit :=
  match checkLength .barrierDiagonal system.layout.inequalities
      diagonal.size with
  | .error error => .refuse system error
  | .ok () => .answer { system with
      values := writeSlots system.slots.barrier diagonal.toList
        system.values } ()

/-- Writes the barrier diagonal of slacks `s` and multipliers `z`, which is
`z / s`. -/
def updateBarrier (system : NewtonSystem α) (s z : Array α) :
    Reply α (NewtonSystem α) Unit :=
  let count := system.layout.inequalities
  match (do
    checkLength .barrierSlacks count s.size
    checkLength .barrierMultipliers count z.size) with
  | .error error => .refuse system error
  | .ok () => .answer { system with
      values := writeSlots system.slots.barrier
        (List.zipWith (fun si zi => zi / si) s.toList z.toList)
        system.values } ()

/-- May `new` take the place of `old`? An absent block makes room for a block
without entries only. -/
def fits (old : Option (Sparse α)) (new : Sparse α) : Bool :=
  match old with
  | some old => old.sameStructure new
  | none => new.entryCount == 0

/-- Replaces a block by one of the same structure. -/
def replace (system : NewtonSystem α) (block : Block) (matrix : Sparse α) :
    Reply α (NewtonSystem α) Unit :=
  let old := system.blocks.get block
  match checkShape system.layout block (some matrix) with
  | .error error => .refuse system error
  | .ok () =>
      if ! fits old matrix then
        .refuse system (.configuration (.structureChanged block))
      else
        let written := if old.isSome then { system with
            blocks := system.blocks.set block matrix
            values := writeBlock (system.slots.get block) (some matrix)
              system.values }
          else system
        .answer { written with revision := written.revision + 1 } ()

def toMatrix (system : NewtonSystem α) : Checked (Sparse α) :=
  system.pattern.toMatrix system.values

end NewtonSystem

namespace Layout

def split (layout : Layout) (vector : Array α) :
    Except (Error α) (Parts α) := do
  checkLength .systemVector layout.size vector.size
  return layout.cut vector

def modify (layout : Layout) (vector : Array α)
    (change : Parts α → Parts α) : Except (Error α) (Array α) := do
  return (change (← layout.split vector)).join

end Layout

end QuasiDefinite
