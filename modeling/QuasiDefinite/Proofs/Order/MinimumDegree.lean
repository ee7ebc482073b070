import QuasiDefinite.Proofs.Order.Eliminate

namespace QuasiDefinite

namespace QuotientGraph

variable {pattern : Pattern} {size : Nat} {formed : Set Nat}
  {graph : QuotientGraph} {lists : Array (List Nat)} {entry : Nat × Nat}
  {i j : Nat}

/-! The graph to begin with. -/

def pushEdge (lists : Array (List Nat)) (entry : Nat × Nat) :
    Array (List Nat) :=
  if entry.1 = entry.2 then lists
  else (lists.modify entry.1 (entry.2 :: ·)).modify entry.2 (entry.1 :: ·)

theorem neighbours_eq : neighbours pattern =
    (pattern.entries.foldl pushEdge
      (Array.replicate pattern.size [])).map List.reverse :=
  rfl

theorem size_pushEdge : (pushEdge lists entry).size = lists.size := by
  unfold pushEdge
  split
  · rfl
  · rw [Array.size_modify, Array.size_modify]

theorem mem_pushEdge (inside : i < lists.size) :
    j ∈ (pushEdge lists entry).getD i [] ↔ j ∈ lists.getD i [] ∨
      entry.1 ≠ entry.2 ∧ (i = entry.1 ∧ j = entry.2 ∨
        i = entry.2 ∧ j = entry.1) := by
  unfold pushEdge
  split
  · next same => simp [same]
  · next differs =>
    simp only [Array.getD_eq_getD_getElem?, Array.getElem?_modify,
      Array.getElem?_eq_getElem inside]
    by_cases first : entry.1 = i
    · have second : entry.2 ≠ i := fun same => differs (first.trans same.symm)
      simp [first, second, second.symm, or_comm]
    · by_cases second : entry.2 = i
      · simp [first, second, Ne.symm first, or_comm]
      · simp [first, second, Ne.symm first, Ne.symm second]

/-- Do the lists within bounds name each other? -/
def Symmetric (lists : Array (List Nat)) : Prop :=
  ∀ i j, i < lists.size → j < lists.size → j ∈ lists.getD i [] →
    i ∈ lists.getD j []

theorem symmetric_pushEdge (symmetric : Symmetric lists) :
    Symmetric (pushEdge lists entry) := by
  intro i j small small' member
  rw [size_pushEdge] at small small'
  rw [mem_pushEdge small] at member
  rw [mem_pushEdge small']
  cases member with
  | inl old => exact .inl (symmetric i j small small' old)
  | inr added =>
      obtain ⟨differs, added⟩ := added
      exact .inr ⟨differs, added.symm.imp And.symm And.symm⟩

theorem symmetric_foldl {entries : List (Nat × Nat)}
    (symmetric : Symmetric lists) :
    Symmetric (entries.foldl pushEdge lists) := by
  induction entries generalizing lists with
  | nil => exact symmetric
  | cons entry entries ih => exact ih (symmetric_pushEdge symmetric)

theorem symmetric_neighbours : Symmetric (neighbours pattern) := by
  have empty : Symmetric (Array.replicate pattern.size []) := by
    intro i j small _ member
    rw [Array.size_replicate] at small
    simp [Array.getD_eq_getD_getElem?, small] at member
  have pushed := @symmetric_foldl _ pattern.entries empty
  rw [neighbours_eq]
  intro i j small small' member
  rw [Array.size_map] at small small'
  have same := pushed i j small small'
  simp only [Array.getD_eq_getD_getElem?, Array.getElem?_map,
    Array.getElem?_eq_getElem small, Array.getElem?_eq_getElem small',
    Option.map_some, Option.getD_some, List.mem_reverse] at same member ⊢
  exact same member

theorem size_foldl_pushEdge {entries : List (Nat × Nat)} :
    (entries.foldl pushEdge lists).size = lists.size := by
  induction entries generalizing lists with
  | nil => rfl
  | cons entry entries ih => rw [List.foldl_cons, ih, size_pushEdge]

theorem size_neighbours : (neighbours pattern).size = pattern.size := by
  rw [neighbours_eq, Array.size_map, size_foldl_pushEdge, Array.size_replicate]

def initial (pattern : Pattern) : QuotientGraph :=
  let size := pattern.size
  let direct := neighbours pattern
  { size, direct
    weight := Array.replicate size 1
    elements := Array.replicate size []
    members := Array.replicate size []
    degree := direct.map List.length
    live := Array.replicate size false
    parent := Array.replicate size none
    front := Array.replicate size 0
    queue := Array.replicate size []
    eliminated := 0 }

theorem ofPattern_eq : ofPattern pattern =
    (List.range pattern.size).foldl start (initial pattern) :=
  rfl

theorem sized_initial : (initial pattern).Sized where
  weight := Array.size_replicate
  direct := size_neighbours
  elements := Array.size_replicate
  members := Array.size_replicate
  degree := Array.size_map.trans size_neighbours
  live := Array.size_replicate
  parent := Array.size_replicate

theorem View.sound_of_untouched {view : View}
    (elements : ∀ i, view.elements i = [])
    (live : ∀ element, view.live element = false)
    (parent : ∀ i, view.parent i = none)
    (symm : ∀ i j, view.weight i ≠ 0 → view.weight j ≠ 0 →
      j ∈ view.direct i → i ∈ view.direct j) : view.Sound ∅ where
  linked := by
    refine ⟨⟨?_, ?_, ?_⟩, fun i _ => parent i, ?_⟩
    · exact fun node => ⟨0, .root (parent node)⟩
    · intro node above link
      simp [parent] at link
    · intro node above link
      simp [parent] at link
    · intro node above link
      simp [parent] at link
  incident := by
    refine ⟨?_, ?_, ?_, ?_, ?_⟩
    · intro element lives
      simp [live] at lives
    · intro element lives
      simp [live] at lives
    · intro i _
      simp [elements]
    · intro i _ element belongs
      simp [elements] at belongs
    · intro i element _ lives
      simp [live] at lives
  mutuals := by
    refine ⟨?_, ?_⟩
    · exact fun _ _ _ _ => Set.notMem_empty _
    · exact fun i j remains remains' => symm i j remains.1 remains'.1
  weighed := by
    refine ⟨?_, ?_⟩
    · intro element lives
      simp [live] at lives
    · intro element lives
      simp [live] at lives

/-- The graph when some of the variables were set aside or queued. -/
structure Started (pattern : Pattern) (done : List Nat)
    (graph : QuotientGraph) : Prop where
  frame : ∃ weight front queue eliminated, graph = { initial pattern with
    weight := weight, front := front, queue := queue, eliminated := eliminated }
  size_weight : graph.weight.size = pattern.size
  weighs : ∀ i < pattern.size, i ∉ done → graph.weightOf i ≠ 0
  queued : graph.Queued fun i => graph.weightOf i ≠ 0 ∧ i ∈ done

theorem started_initial : Started pattern [] (initial pattern) where
  frame := ⟨_, _, _, _, rfl⟩
  size_weight := Array.size_replicate
  weighs := by
    intro i small _
    simp [weightOf, initial, small]
  queued := by
    have none (degree : Nat) : (initial pattern).queuedAt degree = [] :=
      getD_replicate pattern.size []
    refine ⟨?_, ?_⟩
    · intro degree i member
      simp [none] at member
    · intro degree
      simp [none]

theorem start_eq : graph.start i =
    if graph.degreeOf i = 0 then
      { graph with
        front := graph.front.setIfInBounds i 1
        eliminated := graph.eliminated + 1 }
    else if isDense graph.size (graph.degreeOf i) then
      { graph with
        weight := graph.weight.setIfInBounds i 0
        eliminated := graph.eliminated + 1 }
    else graph.enqueue i (graph.degreeOf i) :=
  rfl

namespace Started

variable {done : List Nat} (started : Started pattern done graph)

include started

theorem weighs_append (small : j < pattern.size) (apart : j ∉ done ++ [i]) :
    graph.weightOf j ≠ 0 :=
  started.weighs j small fun old => apart (List.mem_append_left [i] old)

theorem pass (front : Array Nat) (eliminated : Nat) :
    Started pattern (done ++ [i])
      { graph with front := front, eliminated := eliminated } where
  frame := by
    obtain ⟨_, _, _, _, frame⟩ := started.frame
    rw [frame]
    exact ⟨_, _, _, _, rfl⟩
  size_weight := started.size_weight
  weighs := fun _ => started.weighs_append
  queued := started.queued.transfer rfl (fun _ _ => rfl) fun j waits =>
    ⟨waits.1, List.mem_append_left [i] waits.2⟩

theorem setAside (small : i < pattern.size) (fresh : i ∉ done)
    (eliminated : Nat) : Started pattern (done ++ [i]) { graph with
      weight := graph.weight.setIfInBounds i 0, eliminated := eliminated } := by
  have weights (j : Nat) (other : j ≠ i) :
      (graph.weight.setIfInBounds i 0).getD j 0 = graph.weightOf j := by
    have written := @getD_setIfInBounds _ graph.weight i
      (by rwa [started.size_weight]) 0 0
    exact (congrFun written j).trans (Function.update_of_ne other ..)
  refine ⟨?_, ?_, ?_, ?_⟩
  · obtain ⟨_, _, _, _, frame⟩ := started.frame
    rw [frame]
    exact ⟨_, _, _, _, rfl⟩
  · exact Array.size_setIfInBounds.trans started.size_weight
  · intro j small apart
    have other : j ≠ i := by
      intro same
      simp [same] at apart
    exact (weights j other).trans_ne (started.weighs_append small apart)
  · refine started.queued.transfer rfl (fun _ _ => rfl) ?_
    intro j waits
    have other : j ≠ i := by
      intro same
      exact fresh (same ▸ waits.2)
    refine ⟨?_, List.mem_append_left [i] waits.2⟩
    exact (weights j other).trans_ne waits.1

theorem enqueue (small : i < pattern.size) (fresh : i ∉ done) :
    Started pattern (done ++ [i]) (graph.enqueue i (graph.degreeOf i)) where
  frame := by
    obtain ⟨_, _, _, _, frame⟩ := started.frame
    rw [frame]
    exact ⟨_, _, _, _, rfl⟩
  size_weight := started.size_weight
  weighs := fun _ => started.weighs_append
  queued := by
    have queued := @Queued.enqueue graph _ i (graph.degreeOf i)
      started.queued (fun waits => fresh waits.2) rfl
    refine queued.transfer rfl (fun _ _ => rfl) ?_
    intro j waits
    cases waits with
    | inl old => exact ⟨old.1, List.mem_append_left [i] old.2⟩
    | inr same =>
        subst same
        exact ⟨started.weighs j small fresh, by simp⟩

theorem start (small : i < pattern.size) (fresh : i ∉ done) :
    Started pattern (done ++ [i]) (graph.start i) := by
  rw [start_eq]
  split
  · exact started.pass _ _
  · split
    · exact started.setAside small fresh _
    · exact started.enqueue small fresh

end Started

theorem started_ofPattern :
    Started pattern (List.range pattern.size) (ofPattern pattern) := by
  rw [ofPattern_eq]
  apply Checked.foldl_holds (Started pattern) started_initial
  intro done i rest graph split started
  have small : i < pattern.size := List.mem_range.mp (by simp [split])
  apply started.start small
  intro again
  have nodup := @List.nodup_range pattern.size
  rw [split] at nodup
  exact List.disjoint_of_nodup_append nodup again (by simp)

theorem running_ofPattern :
    Running pattern.size ∅ (ofPattern pattern) := by
  have started := @started_ofPattern pattern
  have size_weight := started.size_weight
  have queued := started.queued
  obtain ⟨_, _, _, _, frame⟩ := started.frame
  rw [frame] at size_weight queued ⊢
  have sized : Sized _ := { @sized_initial pattern with weight := size_weight }
  refine ⟨rfl, sized, ?_, ?_⟩
  · apply View.sound_of_untouched
    · exact fun i => getD_replicate pattern.size []
    · exact fun element => getD_replicate pattern.size false
    · exact fun i => getD_replicate pattern.size none
    · intro i j weighs weighs' member
      apply symmetric_neighbours i j _ _ member
      · exact sized.direct ▸ sized.lt_of_weightOf weighs
      · exact sized.direct ▸ sized.lt_of_weightOf weighs'
  · refine queued.transfer rfl (fun _ _ => rfl) ?_
    intro i waits
    exact ⟨waits.1, Set.notMem_empty i⟩

theorem running_eliminateAll (running : Running size formed graph)
    (rounds : Nat) :
    ∃ formed', Running size formed' (graph.eliminateAll rounds) := by
  induction rounds generalizing formed graph with
  | zero => exact ⟨formed, running⟩
  | succ rounds ih =>
      unfold eliminateAll
      split
      · exact ⟨formed, running⟩
      · split
        · exact ⟨formed, running⟩
        · next pivot rest taken =>
          obtain ⟨remains, queued⟩ := running.queued.takeLeast taken
          obtain ⟨_, _, _, rfl⟩ := takeLeast_eq_some taken
          exact ih (running_eliminate running.size_eq { running.sized with }
            running.sound remains queued)

theorem Running.finalOrder_perm (running : Running size formed graph) :
    graph.finalOrder.Perm (List.range size) := by
  have forest := running.sound.linked.forest
  rw [← running.size_eq]
  exact forest.finalOrder_perm running.sized.weight running.sized.parent

end QuotientGraph

open QuotientGraph in
/-- Every pattern is given an order that lists each of its indices once. -/
theorem minimumDegree_perm (pattern : Pattern) :
    (minimumDegree pattern).toList.Perm (List.range pattern.size) := by
  obtain ⟨formed, running⟩ :=
    running_eliminateAll (@running_ofPattern pattern) pattern.size
  exact running.finalOrder_perm

end QuasiDefinite
