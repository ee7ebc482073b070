import QuasiDefinite.Pattern.Basic

/-!
Quotient graphs. Eliminating a variable joins its neighbours into a clique; the
clique is kept as one element, the list of its members, instead of as edges. A
variable therefore has two lists of neighbours: elements it belongs to, and
variables not covered by any of those.

Variables with the same neighbours are eliminated together. One of them stands
for all; its weight is their number, and the others have weight zero and point
to it.
-/

namespace QuasiDefinite

structure QuotientGraph where
  size : Nat
  /-- The number of variables represented, zero for one that is represented by
  another or set aside. -/
  weight : Array Nat
  direct : Array (List Nat)
  elements : Array (List Nat)
  members : Array (List Nat)
  /-- An upper bound of a variable's weight of neighbours; of an element, the
  weight of its members. -/
  degree : Array Nat
  /-- Is this an element that no other has absorbed? -/
  live : Array Bool
  /-- What absorbed this node. -/
  parent : Array (Option Nat)
  /-- The weight of an element and its members when it was formed. -/
  front : Array Nat
  /-- The variables left to eliminate, by degree. -/
  queue : Array (List Nat)
  eliminated : Nat

namespace QuotientGraph

def neighbours (pattern : Pattern) : Array (List Nat) :=
  let pushed := pattern.entries.foldl
    (fun lists (row, col) =>
      if row = col then lists
      else (lists.modify row (col :: ·)).modify col (row :: ·))
    (Array.replicate pattern.size [])
  pushed.map List.reverse

/-- Is a degree so large that the variable is set aside until the end? The
bound is ten times the square root of the size, and at least sixteen. -/
def isDense (size degree : Nat) : Bool :=
  decide (16 < degree) && decide (100 * size < degree * degree)

def enqueue (graph : QuotientGraph) (i degree : Nat) : QuotientGraph :=
  { graph with queue := graph.queue.modify degree (i :: ·) }

/-- Isolated variables are eliminated at once, dense ones set aside, and the
others queued. -/
def start (graph : QuotientGraph) (i : Nat) : QuotientGraph :=
  let degree := graph.degree.getD i 0
  if degree = 0 then
    { graph with
      front := graph.front.setIfInBounds i 1
      eliminated := graph.eliminated + 1 }
  else if isDense graph.size degree then
    { graph with
      weight := graph.weight.setIfInBounds i 0
      eliminated := graph.eliminated + 1 }
  else graph.enqueue i degree

def ofPattern (pattern : Pattern) : QuotientGraph :=
  let size := pattern.size
  let direct := neighbours pattern
  let graph : QuotientGraph :=
    { size, direct
      weight := Array.replicate size 1
      elements := Array.replicate size []
      members := Array.replicate size []
      degree := direct.map List.length
      live := Array.replicate size false
      parent := Array.replicate size none
      front := Array.replicate size 0
      queue := Array.replicate size []
      eliminated := 0 }
  (List.range size).foldl start graph

def weightOf (graph : QuotientGraph) (i : Nat) : Nat :=
  graph.weight.getD i 0

def directOf (graph : QuotientGraph) (i : Nat) : List Nat :=
  graph.direct.getD i []

def elementsOf (graph : QuotientGraph) (i : Nat) : List Nat :=
  graph.elements.getD i []

def degreeOf (graph : QuotientGraph) (i : Nat) : Nat :=
  graph.degree.getD i 0

def isLive (graph : QuotientGraph) (element : Nat) : Bool :=
  graph.live.getD element false

def parentOf (graph : QuotientGraph) (i : Nat) : Option Nat :=
  (graph.parent.getD i none)

def weightOfAll (graph : QuotientGraph) (nodes : List Nat) : Nat :=
  total (nodes.map graph.weightOf)

def absorb (graph : QuotientGraph) (pivot element : Nat) : QuotientGraph :=
  { graph with
    parent := graph.parent.setIfInBounds element (some pivot)
    live := graph.live.setIfInBounds element false }

/-- Lets `keeper` stand for `other` as well. -/
def join (graph : QuotientGraph) (keeper other : Nat) : QuotientGraph :=
  let weight := graph.weightOf other
  { graph with
    weight := (graph.weight.modify keeper (· + weight)).setIfInBounds other 0
    parent := graph.parent.setIfInBounds other (some keeper) }

/-- The variable of least degree that was queued last, and the graph with the
variable taken out of its queue. -/
def takeLeast (graph : QuotientGraph) : Option (Nat × QuotientGraph) := do
  let degree ← graph.queue.findIdx? (! ·.isEmpty)
  match graph.queue.getD degree [] with
  | [] => none
  | pivot :: rest =>
      some (pivot,
        { graph with queue := graph.queue.setIfInBounds degree rest })

def unqueue (graph : QuotientGraph) (i : Nat) : QuotientGraph :=
  { graph with queue := graph.queue.modify (graph.degreeOf i) (·.erase i) }

abbrev Marks := Array Bool

/-- The members of the element that eliminating `pivot` forms: each remaining
neighbour once, in the order in which the lists name it. -/
def gather (graph : QuotientGraph) (pivot : Nat) : List Nat × Marks :=
  let named := (graph.elementsOf pivot).flatMap (graph.members.getD · [])
    ++ graph.directOf pivot
  let (met, marks) := named.foldl
    (fun (met, marks) i =>
      if graph.weightOf i = 0 || marks.getD i true then (met, marks)
      else (i :: met, marks.setIfInBounds i true))
    ([], (Array.replicate graph.size false).setIfInBounds pivot true)
  (met.reverse, marks)

/-- For every element next to `members`, the weight of its members that are
not among them. -/
def outside (graph : QuotientGraph) (members : List Nat) :
    Array (Option Nat) :=
  members.foldl
    (fun left i =>
      let weight := graph.weightOf i
      (graph.elementsOf i).foldl
        (fun left element =>
          if graph.isLive element then
            left.modify element fun known =>
              some (known.getD (graph.degreeOf element) - weight)
          else left)
        left)
    (Array.replicate graph.size none)

/-- The state while the members of a new element are brought up to date. -/
structure Update where
  graph : QuotientGraph
  /-- The weight of the members that remain. -/
  degree : Nat
  /-- The weight eliminated together with the pivot. -/
  pivotWeight : Nat
  /-- The members that remain, latest first, each with a key that is the same
  for members with the same neighbours. -/
  remaining : List (Nat × Nat)

def rotate : List Nat → List Nat
  | [] => []
  | head :: rest => rest ++ [head]

/-- Brings one member up to date. Elements that lie within the new one are
absorbed, and a member left without other neighbours is eliminated together
with the pivot. -/
def Update.step (pivot : Nat) (marks : Marks) (left : Array (Option Nat))
    (state : Update) (i : Nat) : Update :=
  let graph := state.graph
  let size := graph.size
  let around := (graph.elementsOf i).filter graph.isLive
  let beyond (element : Nat) : Nat := (left.getD element none).getD 0
  let kept := around.filter (0 < beyond ·)
  let graph := (around.filter (beyond · = 0)).foldl (absorb · pivot) graph
  let free := (graph.directOf i).filter fun j =>
    graph.weightOf j ≠ 0 && ! marks.getD j true
  if kept.isEmpty && free.isEmpty then
    let weight := graph.weightOf i
    { state with
      graph := { graph with
        parent := graph.parent.setIfInBounds i (some pivot)
        weight := graph.weight.setIfInBounds i 0
        eliminated := graph.eliminated + weight }
      degree := state.degree - weight
      pivotWeight := state.pivotWeight + weight }
  else
    let bound := total (kept.map beyond) + graph.weightOfAll free
    { state with
      graph := { graph with
        degree := graph.degree.modify i (min · bound)
        elements := graph.elements.setIfInBounds i (pivot :: rotate kept)
        direct := graph.direct.setIfInBounds i (rotate free) }
      remaining := (i, (total kept + total free) % size) :: state.remaining }

def sameNeighbours (graph : QuotientGraph) (i j : Nat) : Bool :=
  let (elements, others) := (graph.elementsOf i, graph.elementsOf j)
  let (direct, others') := (graph.directOf i, graph.directOf j)
  elements.length == others.length && direct.length == others'.length &&
    (others.all elements.contains && others'.all direct.contains)

/-- Joins the variables with the same neighbours; the first of them stands for
them. -/
def joinAlike (graph : QuotientGraph) : List Nat → QuotientGraph
  | [] => graph
  | keeper :: rest =>
      let alike := rest.filter (graph.sameNeighbours keeper)
      let others := rest.filter (! graph.sameNeighbours keeper ·)
      joinAlike (alike.foldl (join · keeper) graph) others
termination_by candidates => candidates.length
decreasing_by
  simp only [List.length_unattach, List.length_cons]
  exact Nat.lt_succ_of_le
    (Nat.le_trans (List.length_filter_le ..) (by simp))

def joinByKey (graph : QuotientGraph) (keyed : List (Nat × Nat)) :
    QuotientGraph :=
  let buckets := keyed.reverse.foldl
    (fun buckets (i, key) => buckets.modify key (i :: ·))
    (Array.replicate graph.size [])
  buckets.foldl joinAlike graph

def requeue (elementDegree : Nat) (graph : QuotientGraph) (i : Nat) :
    QuotientGraph :=
  let weight := graph.weightOf i
  let degree := min (graph.degreeOf i + elementDegree - weight)
    (graph.size - graph.eliminated - weight)
  { graph with degree := graph.degree.setIfInBounds i degree }.enqueue i degree

def eliminate (graph : QuotientGraph) (pivot : Nat) : QuotientGraph :=
  let weight := graph.weightOf pivot
  let (members, marks) := graph.gather pivot
  let graph := members.foldl unqueue graph
  let graph := (graph.elementsOf pivot).foldl (absorb · pivot) graph
  let degree := graph.weightOfAll members
  let graph := { graph with
    eliminated := graph.eliminated + weight
    front := graph.front.setIfInBounds pivot (weight + degree) }
  let left := graph.outside members
  let update := members.foldl (Update.step pivot marks left)
    ⟨graph, degree, weight, []⟩
  let graph := update.graph.joinByKey update.remaining
  let remaining := members.filter (graph.weightOf · ≠ 0)
  let graph := remaining.foldl (requeue update.degree) graph
  { graph with
    members := graph.members.setIfInBounds pivot remaining
    degree := graph.degree.setIfInBounds pivot update.degree
    weight := graph.weight.setIfInBounds pivot update.pivotWeight
    live := graph.live.setIfInBounds pivot (! remaining.isEmpty) }

/-- Eliminates by least degree until nothing is queued; every round takes one
variable at least. -/
def eliminateAll (graph : QuotientGraph) : Nat → QuotientGraph
  | 0 => graph
  | rounds + 1 =>
      if graph.size ≤ graph.eliminated then graph
      else match graph.takeLeast with
        | none => graph
        | some (pivot, graph) => (graph.eliminate pivot).eliminateAll rounds

end QuotientGraph

end QuasiDefinite
