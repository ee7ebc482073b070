import QuasiDefinite.Checked

namespace QuasiDefinite

structure Permutation where
  /-- The index that comes k-th. -/
  order : Array Nat
  /-- The place at which an index comes. -/
  place : Array Nat
  deriving Repr, DecidableEq

namespace Permutation

/-- Why a list is no permutation, at its first offending entry. -/
inductive Flaw where
  | outOfRange (entry size : Nat)
  | repeated (entry : Nat)
  deriving Repr, DecidableEq

def Flaw.message : Flaw → String
  | outOfRange entry size =>
      s!"ordering entry {entry} out of range for dimension {size}"
  | repeated entry =>
      s!"ordering is not a permutation: index {entry} appears twice"

def identity (size : Nat) : Permutation :=
  ⟨.range size, .range size⟩

/-- Records that `entry` comes at `rank`. The size of the array, which is no
place, marks the indices not met so far. -/
def record (places : Array Nat) (entry rank : Nat) :
    Except Flaw (Array Nat) :=
  if h : entry < places.size then
    if places[entry] = places.size then .ok (places.set entry rank h)
    else .error (.repeated entry)
  else .error (.outOfRange entry places.size)

def ofOrder (order : Array Nat) : Except Flaw Permutation := do
  let place ← order.toList.zipIdx.foldlM
    (fun places (entry, rank) => record places entry rank)
    (Array.replicate order.size order.size)
  return ⟨order, place⟩

def size (permutation : Permutation) : Nat :=
  permutation.order.size

def isIdentity (permutation : Permutation) : Bool :=
  permutation.order.toList.zipIdx.all fun (entry, rank) => entry == rank

end Permutation

end QuasiDefinite
