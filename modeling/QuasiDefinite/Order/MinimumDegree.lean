import QuasiDefinite.Order.QuotientGraph

/-!
The minimum degree order. Eliminating by least degree leaves a forest of
elements; the order is its postorder, each element with the variables it stands
for, and the variables set aside come last.
-/

namespace QuasiDefinite

namespace QuotientGraph

/-- The element that eliminated a variable, found by climbing from the variable
to what stands for it. -/
def host (graph : QuotientGraph) : Nat → Nat → Nat
  | 0, i => i
  | steps + 1, i =>
      if graph.weightOf i ≠ 0 then i
      else match graph.parentOf i with
        | none => i
        | some above => graph.host steps above

/-- Lists of nodes by an owner, each in ascending order. -/
def groupBy (graph : QuotientGraph) (owner : Nat → Option Nat) :
    Array (List Nat) :=
  (List.range graph.size).foldr
    (fun i groups => match owner i with
      | none => groups
      | some above => groups.modify above (i :: ·))
    (Array.replicate graph.size [])

/-- The largest front, of equal ones the last, moved behind the others. -/
def largestLast (graph : QuotientGraph) : List Nat → List Nat
  | [] => []
  | head :: rest =>
      let front (i : Nat) : Nat := graph.front.getD i 0
      let largest := rest.foldl
        (fun best i => if front best ≤ front i then i else best) head
      (head :: rest).filter (· ≠ largest) ++ [largest]

/-- The nodes below `root` and then `root`, to the given depth. -/
def postorder (children : Array (List Nat)) : Nat → Nat → List Nat
  | 0, root => [root]
  | depth + 1, root =>
      (children.getD root []).flatMap (postorder children depth) ++ [root]

def finalOrder (graph : QuotientGraph) : List Nat :=
  let represented (i : Nat) : Bool := graph.weightOf i ≠ 0
  let children := (graph.groupBy fun i =>
    if represented i then graph.parentOf i else none).map graph.largestLast
  let guests := graph.groupBy fun i =>
    if represented i then none
    else (graph.parentOf i).map (graph.host graph.size)
  let nodes := List.range graph.size
  let roots := nodes.filter fun i =>
    represented i && (graph.parentOf i).isNone
  let aside := nodes.filter fun i =>
    ! represented i && (graph.parentOf i).isNone
  (roots.flatMap (postorder children graph.size)).flatMap
    (fun element => guests.getD element [] ++ [element]) ++ aside

end QuotientGraph

def minimumDegree (pattern : Pattern) : Array Nat :=
  ((QuotientGraph.ofPattern pattern).eliminateAll
    pattern.size).finalOrder.toArray

end QuasiDefinite
