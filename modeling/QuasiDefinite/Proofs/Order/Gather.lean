import Mathlib.Algebra.Order.BigOperators.Group.List
import Mathlib.Algebra.Order.Group.Nat
import QuasiDefinite.Proofs.Checked
import QuasiDefinite.Proofs.Order.Join

namespace QuasiDefinite.QuotientGraph

variable {graph graph' : QuotientGraph} {pivot i j element : Nat}
  {named done rest met nodes : List Nat} {marks : Marks}

structure Gathered (graph : QuotientGraph) (pivot : Nat)
    (named met : List Nat) (marks : Marks) : Prop where
  size_eq : marks.size = graph.size
  nodup : met.Nodup
  mem_iff : ∀ i, i ∈ met ↔ i ∈ named ∧ graph.weightOf i ≠ 0 ∧ i ≠ pivot
  marked : ∀ i < graph.size, marks.getD i true = true ↔ i = pivot ∨ i ∈ met

theorem Gathered.lt (gathered : Gathered graph pivot named met marks)
    (sized : graph.Sized) (member : i ∈ met) : i < graph.size :=
  sized.lt_of_weightOf ((gathered.mem_iff i).mp member).2.1

theorem Gathered.next (gathered : Gathered graph pivot done met marks)
    (sized : graph.Sized) (weighs : graph.weightOf i ≠ 0)
    (fresh : marks.getD i true = false) :
    Gathered graph pivot (done ++ [i]) (i :: met)
      (marks.setIfInBounds i true) := by
  have inside := sized.lt_of_weightOf weighs
  have apart : i ≠ pivot ∧ i ∉ met := by
    rw [← not_or, ← gathered.marked i inside, fresh]
    exact Bool.false_ne_true
  have marks_eq := @getD_setIfInBounds _ marks i
    (by rwa [gathered.size_eq]) true true
  refine ⟨?_, ?_, ?_, ?_⟩
  · rw [Array.size_setIfInBounds, gathered.size_eq]
  · exact List.nodup_cons.mpr ⟨apart.2, gathered.nodup⟩
  · intro j
    rw [List.mem_cons, gathered.mem_iff, List.mem_append, List.mem_singleton]
    constructor
    · intro member
      cases member with
      | inl same => exact ⟨.inr same, same ▸ weighs, same ▸ apart.1⟩
      | inr old => exact ⟨.inl old.1, old.2⟩
    · intro ⟨member, weighs⟩
      cases member with
      | inl old => exact .inr ⟨old, weighs⟩
      | inr same => exact .inl same
  · intro j small
    have here := congrFun marks_eq j
    rw [Function.update_apply] at here
    rw [here, List.mem_cons]
    split
    · next same => simp [same]
    · next differs =>
      rw [gathered.marked j small]
      simp [differs]

theorem Gathered.skip (gathered : Gathered graph pivot done met marks)
    (sized : graph.Sized)
    (skipped : graph.weightOf i = 0 ∨ marks.getD i true = true) :
    Gathered graph pivot (done ++ [i]) met marks := by
  refine ⟨gathered.size_eq, gathered.nodup, ?_, gathered.marked⟩
  intro j
  rw [gathered.mem_iff, List.mem_append, List.mem_singleton]
  constructor
  · intro ⟨member, weighs⟩
    exact ⟨.inl member, weighs⟩
  · intro ⟨member, weighs, apart⟩
    cases member with
    | inl old => exact ⟨old, weighs, apart⟩
    | inr same =>
        subst same
        have known := skipped.resolve_left weighs
        have inside := sized.lt_of_weightOf weighs
        have met := ((gathered.marked j inside).mp known).resolve_left apart
        exact (gathered.mem_iff j).mp met

theorem Gathered.step (gathered : Gathered graph pivot done met marks)
    (sized : graph.Sized) :
    let state := if graph.weightOf i = 0 || marks.getD i true then (met, marks)
      else (i :: met, marks.setIfInBounds i true)
    Gathered graph pivot (done ++ [i]) state.1 state.2 := by
  dsimp only
  split
  · next skips =>
    simp only [Bool.or_eq_true, decide_eq_true_eq] at skips
    exact gathered.skip sized skips
  · next takes =>
    simp only [Bool.or_eq_true, decide_eq_true_eq, not_or,
      Bool.not_eq_true] at takes
    exact gathered.next sized takes.1 takes.2

def namedBy (graph : QuotientGraph) (pivot : Nat) : List Nat :=
  (graph.elementsOf pivot).flatMap graph.membersOf ++ graph.directOf pivot

theorem gather_gathered (sized : graph.Sized) (inside : pivot < graph.size) :
    Gathered graph pivot (graph.namedBy pivot) (graph.gather pivot).1
      (graph.gather pivot).2 := by
  have start : Gathered graph pivot [] []
      ((Array.replicate graph.size false).setIfInBounds pivot true) := by
    refine ⟨by simp, .nil, by simp, ?_⟩
    intro i small
    have here := congrFun (@getD_setIfInBounds _
      (Array.replicate graph.size false) pivot (by simpa using inside)
      true true) i
    rw [Function.update_apply] at here
    rw [here]
    split
    · next same => simp [same]
    · next differs => simp [differs, small]
  have done := @Checked.foldl_holds _ _ _ (graph.namedBy pivot)
    (fun done (state : List Nat × Marks) =>
      Gathered graph pivot done state.1 state.2) ([], _) start
    fun _ _ _ _ _ gathered => gathered.step sized
  refine ⟨done.size_eq, ?_, ?_, ?_⟩
  · exact List.nodup_reverse.mpr done.nodup
  · intro i
    exact List.mem_reverse.trans (done.mem_iff i)
  · intro i small
    rw [show i ∈ (graph.gather pivot).1 ↔ _ from List.mem_reverse]
    exact done.marked i small

structure Absorbed (nodes : List Nat) (pivot : Nat)
    (graph graph' : QuotientGraph) : Prop where
  frame : ∃ parent live front eliminated, graph' = { graph with
    parent := parent, live := live, front := front, eliminated := eliminated }
  sized : graph'.Sized
  parentOf : ∀ i, graph'.parentOf i =
    if i ∈ nodes then some pivot else graph.parentOf i
  isLive : ∀ i, graph'.isLive i = true ↔ graph.isLive i = true ∧ i ∉ nodes

theorem Absorbed.charge {front : Array Nat} {eliminated : Nat}
    (absorbed : Absorbed nodes pivot graph graph') :
    Absorbed nodes pivot graph
      { graph' with front := front, eliminated := eliminated } where
  frame := by
    obtain ⟨_, _, _, _, rfl⟩ := absorbed.frame
    exact ⟨_, _, _, _, rfl⟩
  sized := { absorbed.sized with }
  parentOf := absorbed.parentOf
  isLive := absorbed.isLive

theorem absorbed_absorb (sized : graph.Sized) (inside : element < graph.size) :
    Absorbed [element] pivot graph (graph.absorb pivot element) where
  frame := ⟨_, _, _, _, rfl⟩
  sized := { sized with
    live := by simp [absorb, sized.live]
    parent := by simp [absorb, sized.parent] }
  parentOf := by
    intro i
    have written := congrFun (@getD_setIfInBounds _ graph.parent element
      (by rwa [sized.parent]) (some pivot) none) i
    rw [Function.update_apply] at written
    simp only [List.mem_singleton]
    exact written
  isLive := by
    intro i
    have written := congrFun (@getD_setIfInBounds _ graph.live element
      (by rwa [sized.live]) false false) i
    rw [Function.update_apply] at written
    rw [List.mem_singleton, show (graph.absorb pivot element).isLive i = _
      from written]
    split
    · next same => simp [same]
    · next differs => simp [differs, isLive]

theorem absorbed_foldl (sized : graph.Sized)
    (inside : ∀ element ∈ nodes, element < graph.size) :
    Absorbed nodes pivot graph (nodes.foldl (absorb · pivot) graph) := by
  induction nodes generalizing graph with
  | nil => exact ⟨⟨_, _, _, _, rfl⟩, sized, by simp, by simp⟩
  | cons element nodes ih =>
      have first := @absorbed_absorb graph pivot element sized
        (inside element (by simp))
      have second := ih first.sized fun other member =>
        inside other (List.mem_cons_of_mem element member)
      rw [List.foldl_cons]
      refine ⟨?_, second.sized, ?_, ?_⟩
      · obtain ⟨_, _, _, _, same⟩ := second.frame
        exact ⟨_, _, _, _, same⟩
      · intro i
        rw [second.parentOf, first.parentOf]
        by_cases member : i ∈ nodes
        · simp [member]
        · simp [member]
      · intro i
        rw [second.isLive, first.isLive]
        simp [and_assoc]

/-! What is left of an element outside the gathered variables. -/

/-- The weight left in an element, nothing if it was not met. -/
def beyond (left : Array (Option Nat)) (element : Nat) : Nat :=
  (left.getD element none).getD 0

def sharers (graph : QuotientGraph) (element : Nat) (nodes : List Nat) :
    List Nat :=
  nodes.filter fun i => (graph.elementsOf i).contains element

def takeFrom (graph : QuotientGraph) (weight : Nat)
    (left : Array (Option Nat)) (element : Nat) : Array (Option Nat) :=
  if graph.isLive element then
    left.modify element fun known =>
      some (known.getD (graph.degreeOf element) - weight)
  else left

theorem size_takeFrom {weight : Nat} {left : Array (Option Nat)} :
    (graph.takeFrom weight left element).size = left.size := by
  unfold takeFrom
  split
  · exact Array.size_modify
  · rfl

theorem size_foldl_takeFrom {weight : Nat} {left : Array (Option Nat)}
    {elements : List Nat} :
    (elements.foldl (graph.takeFrom weight) left).size = left.size := by
  induction elements generalizing left with
  | nil => rfl
  | cons element elements ih => rw [List.foldl_cons, ih, size_takeFrom]

theorem takeFrom_getD {weight other : Nat} {left : Array (Option Nat)}
    (inside : element < left.size) (lives : graph.isLive element = true) :
    (graph.takeFrom weight left other).getD element none =
      if element = other then
        some ((left.getD element none).getD (graph.degreeOf element) - weight)
      else left.getD element none := by
  unfold takeFrom
  by_cases same : element = other
  · subst same
    rw [if_pos lives, if_pos rfl]
    exact (congrFun (getD_modify inside _ none) element).trans
      (Function.update_self ..)
  · rw [if_neg same]
    by_cases lives' : graph.isLive other = true
    · rw [if_pos lives']
      simp only [Array.getD_eq_getD_getElem?, Array.getElem?_modify,
        if_neg (Ne.symm same)]
    · rw [if_neg lives']

theorem foldl_takeFrom_getD {weight : Nat} {left : Array (Option Nat)}
    {elements : List Nat} (inside : element < left.size)
    (lives : graph.isLive element = true) (nodup : elements.Nodup) :
    (elements.foldl (graph.takeFrom weight) left).getD element none =
      if element ∈ elements then
        some ((left.getD element none).getD (graph.degreeOf element) - weight)
      else left.getD element none := by
  induction elements generalizing left with
  | nil => rfl
  | cons other elements ih =>
      obtain ⟨fresh, nodup⟩ := List.nodup_cons.mp nodup
      rw [List.foldl_cons, ih (by rwa [size_takeFrom]) nodup,
        takeFrom_getD inside lives]
      by_cases same : element = other
      · simp [same, fresh]
      · simp [same]

/-- The degree of an element is covered by what is left outside and by the
variables that share it. -/
structure Outside (graph : QuotientGraph) (done : List Nat)
    (left : Array (Option Nat)) : Prop where
  size_eq : left.size = graph.size
  met : ∀ element, graph.isLive element = true →
    ∀ i ∈ done, element ∈ graph.elementsOf i →
      left.getD element none ≠ none
  covers : ∀ element, graph.isLive element = true → graph.degreeOf element ≤
    (left.getD element none).getD (graph.degreeOf element) +
      graph.view.weightOfAll (graph.sharers element done)

theorem weightOfAll_append (view : View) (first second : List Nat) :
    view.weightOfAll (first ++ second) =
      view.weightOfAll first + view.weightOfAll second := by
  unfold View.weightOfAll
  rw [List.map_append, total_append]

theorem Outside.next {left : Array (Option Nat)} (sized : graph.Sized)
    (outside : Outside graph done left)
    (nodup : (graph.elementsOf i).Nodup) :
    Outside graph (done ++ [i])
      ((graph.elementsOf i).foldl (graph.takeFrom (graph.weightOf i))
        left) := by
  have value (element : Nat) (lives : graph.isLive element = true) :=
    @foldl_takeFrom_getD graph element (graph.weightOf i) left
      (graph.elementsOf i) (by
        rw [outside.size_eq]
        exact sized.lt_of_isLive lives) lives nodup
  refine ⟨?_, ?_, ?_⟩
  · rw [size_foldl_takeFrom, outside.size_eq]
  · intro element lives j member belongs
    rw [value element lives]
    split
    · exact nofun
    · next apart =>
      cases List.mem_append.mp member with
      | inl old => exact outside.met element lives j old belongs
      | inr last =>
          rw [List.mem_singleton] at last
          exact absurd (last ▸ belongs) apart
  · intro element lives
    have covers := outside.covers element lives
    rw [value element lives]
    unfold sharers at covers ⊢
    rw [List.filter_append, weightOfAll_append]
    by_cases belongs : element ∈ graph.elementsOf i
    · have own : graph.view.weightOfAll ([i].filter fun j =>
          (graph.elementsOf j).contains element) = graph.weightOf i := by
        simp [belongs, View.weightOfAll, total, view]
      rw [if_pos belongs, own, Option.getD_some]
      omega
    · rw [if_neg belongs]
      omega

theorem outside_outside {members : List Nat} (sized : graph.Sized)
    (nodup : ∀ i ∈ members, (graph.elementsOf i).Nodup) :
    Outside graph members (graph.outside members) := by
  apply Checked.foldl_holds (Outside graph)
  · refine ⟨by simp, by simp, ?_⟩
    intro element lives
    simp [Array.getD_eq_getD_getElem?, sized.lt_of_isLive lives]
  · intro done i rest left split outside
    exact outside.next sized (nodup i (by simp [split]))

theorem View.weightOfAll_le_of_subset {view : View} {first second : List Nat}
    (nodup : first.Nodup) (subset : first ⊆ second) :
    view.weightOfAll first ≤ view.weightOfAll second := by
  obtain ⟨part, perm, sublist⟩ := nodup.subperm subset
  unfold weightOfAll
  rw [total_eq_sum, total_eq_sum, ← (perm.map view.weight).sum_eq]
  exact (sublist.map view.weight).sum_le_sum fun _ _ => Nat.zero_le _

theorem Outside.mem_of_beyond_eq_zero {members : List Nat}
    {left : Array (Option Nat)} (outside : Outside graph members left)
    (nodup : members.Nodup) (lives : graph.isLive element = true)
    (lists : ∀ k ∈ members, element ∈ graph.elementsOf k →
      k ∈ graph.membersOf element)
    (bound : graph.view.weightOfAll (graph.membersOf element) ≤
      graph.degreeOf element)
    (member : i ∈ members) (belongs : element ∈ graph.elementsOf i)
    (nothing : beyond left element = 0) (listed : j ∈ graph.membersOf element)
    (weighs : graph.weightOf j ≠ 0) : j ∈ members := by
  have covers := outside.covers element lives
  have met := outside.met element lives i member belongs
  obtain ⟨rest, found⟩ := Option.ne_none_iff_exists'.mp met
  unfold beyond at nothing
  rw [found, Option.getD_some] at nothing covers
  by_contra apart
  have shared : graph.sharers element members ⊆ graph.membersOf element := by
    intro k sharer
    obtain ⟨member, belongs⟩ := List.mem_filter.mp sharer
    exact lists k member (List.contains_iff_mem.mp belongs)
  -- The sharers account for the whole degree, so `j` would weigh too much.
  have more : graph.view.weightOfAll (j :: graph.sharers element members) ≤
      graph.view.weightOfAll (graph.membersOf element) := by
    apply View.weightOfAll_le_of_subset
    · refine List.nodup_cons.mpr ⟨?_, nodup.filter _⟩
      intro sharer
      exact apart (List.mem_of_mem_filter sharer)
    · exact List.cons_subset.mpr ⟨listed, shared⟩
  have split : graph.view.weightOfAll (j :: graph.sharers element members) =
      graph.weightOf j +
        graph.view.weightOfAll (graph.sharers element members) := rfl
  omega

end QuasiDefinite.QuotientGraph
