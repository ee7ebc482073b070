import QuasiDefinite.Proofs.Order.Gather

/-!
Bringing the members of a new element up to date, one after the other. A step
absorbs elements, and then the member lapses or is renewed (`Update.step_eq`);
what the graph says after some of the steps is told in terms of the graph before
all of them (`Updated`).
-/

namespace QuasiDefinite.QuotientGraph

theorem rotate_perm : ∀ nodes : List Nat, (rotate nodes).Perm nodes
  | [] => .nil
  | head :: rest => List.perm_append_singleton head rest

/-! What a member keeps. -/

section

variable (graph : QuotientGraph) (marks : Marks) (left : Array (Option Nat))

def keptOf (i : Nat) : List Nat :=
  ((graph.elementsOf i).filter graph.isLive).filter (0 < beyond left ·)

def freeOf (i : Nat) : List Nat :=
  (graph.directOf i).filter fun j =>
    graph.weightOf j ≠ 0 && ! marks.getD j true

/-- Is the member left without other neighbours? -/
def lapses (i : Nat) : Bool :=
  (graph.keptOf left i).isEmpty && (graph.freeOf marks i).isEmpty

def lapsed (done : List Nat) (i : Nat) : Bool :=
  done.contains i && graph.lapses marks left i

def renewed (done : List Nat) (i : Nat) : Bool :=
  done.contains i && ! graph.lapses marks left i

/-- Is this an element of a member that lies within the new element? -/
def spent (seen : List Nat) (element : Nat) : Bool :=
  graph.isLive element && beyond left element == 0 &&
    seen.any fun i => (graph.elementsOf i).contains element

end

/-! A step in parts. -/

def Update.absorbing (state : Update) (pivot : Nat) (nodes : List Nat) :
    Update :=
  { state with graph := nodes.foldl (absorb · pivot) state.graph }

def Update.lapse (state : Update) (pivot i : Nat) : Update :=
  let graph := state.graph
  let weight := graph.weightOf i
  { state with
    graph := { graph with
      parent := graph.parent.setIfInBounds i (some pivot)
      weight := graph.weight.setIfInBounds i 0
      eliminated := graph.eliminated + weight }
    degree := state.degree - weight
    pivotWeight := state.pivotWeight + weight }

def Update.renew (state : Update) (pivot bound key i : Nat)
    (kept free : List Nat) : Update :=
  let graph := state.graph
  { state with
    graph := { graph with
      degree := graph.degree.modify i (min · bound)
      elements := graph.elements.setIfInBounds i (pivot :: rotate kept)
      direct := graph.direct.setIfInBounds i (rotate free) }
    remaining := (i, key) :: state.remaining }

variable {graph : QuotientGraph} {marks : Marks} {left : Array (Option Nat)}
  {pivot i j element : Nat} {members seen done rest : List Nat}
  {state : Update}

def Update.spentBy (state : Update) (left : Array (Option Nat)) (i : Nat) :
    List Nat :=
  ((state.graph.elementsOf i).filter state.graph.isLive).filter
    (beyond left · = 0)

theorem Update.step_eq : ∃ bound key,
    let absorbed := state.absorbing pivot (state.spentBy left i)
    let kept := state.graph.keptOf left i
    let free := absorbed.graph.freeOf marks i
    state.step pivot marks left i =
      if kept.isEmpty && free.isEmpty then absorbed.lapse pivot i
      else absorbed.renew pivot bound key i kept free := by
  let absorbed := state.absorbing pivot (state.spentBy left i)
  let kept := state.graph.keptOf left i
  let free := absorbed.graph.freeOf marks i
  exact ⟨total (kept.map (beyond left)) + absorbed.graph.weightOfAll free,
    (total kept + total free) % state.graph.size, rfl⟩

/-- A graph and its state when the elements of the members `seen` were absorbed
and the members `done` brought up to date. -/
structure Updated (graph : QuotientGraph) (pivot : Nat) (members : List Nat)
    (marks : Marks) (left : Array (Option Nat)) (seen done : List Nat)
    (state : Update) : Prop where
  size_eq : state.graph.size = graph.size
  members_eq : state.graph.members = graph.members
  queue_eq : state.graph.queue = graph.queue
  sized : state.graph.Sized
  weightOf : ∀ i, state.graph.weightOf i =
    if graph.lapsed marks left done i then 0 else graph.weightOf i
  parentOf : ∀ i, state.graph.parentOf i =
    if graph.lapsed marks left done i || graph.spent left seen i then
      some pivot
    else graph.parentOf i
  isLive : ∀ element, state.graph.isLive element =
    (graph.isLive element && ! graph.spent left seen element)
  elementsOf : ∀ i, state.graph.elementsOf i =
    if graph.renewed marks left done i then
      pivot :: rotate (graph.keptOf left i)
    else graph.elementsOf i
  directOf : ∀ i, state.graph.directOf i =
    if graph.renewed marks left done i then rotate (graph.freeOf marks i)
    else graph.directOf i
  degreeOf : ∀ i, i ∉ done → state.graph.degreeOf i = graph.degreeOf i
  degree : state.graph.view.weightOfAll members ≤ state.degree
  pivotWeight : graph.weightOf pivot ≤ state.pivotWeight
  remaining : state.remaining.map Prod.fst =
    (done.filter (! graph.lapses marks left ·)).reverse

theorem lapsed_append : graph.lapsed marks left (done ++ [i]) j =
    (graph.lapsed marks left done j ||
      j == i && graph.lapses marks left i) := by
  unfold lapsed
  by_cases same : j = i
  · subst same
    cases graph.lapses marks left j with
    | true => simp
    | false => simp
  · simp [same]

theorem renewed_append : graph.renewed marks left (done ++ [i]) j =
    (graph.renewed marks left done j ||
      j == i && ! graph.lapses marks left i) := by
  unfold renewed
  by_cases same : j = i
  · subst same
    cases graph.lapses marks left j with
    | true => simp
    | false => simp
  · simp [same]

theorem renewed_of_lapsed_eq_false (member : i ∈ done)
    (stays : graph.lapsed marks left done i = false) :
    graph.renewed marks left done i = true := by
  unfold lapsed at stays
  unfold renewed
  rw [List.contains_iff_mem.mpr member, Bool.true_and] at stays ⊢
  rw [stays, Bool.not_false]

theorem spent_eq_true_iff : graph.spent left seen element = true ↔
    graph.isLive element = true ∧ beyond left element = 0 ∧
      ∃ i ∈ seen, element ∈ graph.elementsOf i := by
  unfold spent
  simp only [Bool.and_eq_true, beq_iff_eq, List.any_eq_true,
    List.contains_iff_mem, and_assoc]

theorem spent_append : graph.spent left (seen ++ [i]) element =
    (graph.spent left seen element ||
      graph.isLive element && beyond left element == 0 &&
        (graph.elementsOf i).contains element) := by
  unfold spent
  rw [List.any_append, Bool.and_or_distrib_left]
  simp

namespace Updated

variable (updated : Updated graph pivot members marks left seen done state)

include updated

theorem elementsOf_eq (fresh : i ∉ done) :
    state.graph.elementsOf i = graph.elementsOf i := by
  rw [updated.elementsOf]
  simp [renewed, fresh]

theorem directOf_eq (fresh : i ∉ done) :
    state.graph.directOf i = graph.directOf i := by
  rw [updated.directOf]
  simp [renewed, fresh]

theorem elementsOf_renewed (member : i ∈ done)
    (stays : graph.lapsed marks left done i = false) :
    state.graph.elementsOf i = pivot :: rotate (graph.keptOf left i) := by
  rw [updated.elementsOf, renewed_of_lapsed_eq_false member stays, if_pos rfl]

theorem directOf_renewed (member : i ∈ done)
    (stays : graph.lapsed marks left done i = false) :
    state.graph.directOf i = rotate (graph.freeOf marks i) := by
  rw [updated.directOf, renewed_of_lapsed_eq_false member stays, if_pos rfl]

theorem kept_eq (fresh : i ∉ done) :
    state.graph.keptOf left i = graph.keptOf left i := by
  unfold keptOf
  rw [updated.elementsOf_eq fresh, List.filter_filter, List.filter_filter]
  apply List.filter_congr
  intro element _
  rw [updated.isLive]
  by_cases nothing : beyond left element = 0
  · simp [nothing]
  · simp [spent, beq_false_of_ne nothing]

theorem free_eq (fresh : i ∉ done)
    (marked : ∀ j ∈ done, marks.getD j true = true) :
    state.graph.freeOf marks i = graph.freeOf marks i := by
  unfold freeOf
  rw [updated.directOf_eq fresh]
  apply List.filter_congr
  intro j _
  rw [updated.weightOf]
  by_cases member : j ∈ done
  · simp [marked j member]
  · simp [lapsed, member]

theorem mem_spentBy (fresh : i ∉ done) : element ∈ state.spentBy left i ↔
    graph.spent left seen element = false ∧ graph.isLive element = true ∧
      beyond left element = 0 ∧ element ∈ graph.elementsOf i := by
  unfold Update.spentBy
  rw [updated.elementsOf_eq fresh]
  simp only [List.mem_filter, updated.isLive, Bool.and_eq_true,
    Bool.not_eq_true', decide_eq_true_eq]
  tauto

theorem spent_iff (fresh : i ∉ done) :
    graph.spent left (seen ++ [i]) element = true ↔
      graph.spent left seen element = true ∨
        element ∈ state.spentBy left i := by
  rw [spent_append, updated.mem_spentBy fresh]
  simp only [Bool.or_eq_true, Bool.and_eq_true, beq_iff_eq,
    List.contains_iff_mem]
  cases graph.spent left seen element with
  | true => simp
  | false => simp [and_assoc]

theorem absorbed {graph' : QuotientGraph} (fresh : i ∉ done)
    (absorbed : Absorbed (state.spentBy left i) pivot state.graph graph') :
    Updated graph pivot members marks left (seen ++ [i]) done
      { state with graph := graph' } := by
  have spent_eq (element : Nat) :
      graph.spent left (seen ++ [i]) element =
        (graph.spent left seen element ||
          decide (element ∈ state.spentBy left i)) := by
    rw [Bool.eq_iff_iff, updated.spent_iff fresh]
    simp
  have parentOf := absorbed.parentOf
  have isLive := absorbed.isLive
  have sized := absorbed.sized
  obtain ⟨_, _, _, _, rfl⟩ := absorbed.frame
  refine ⟨updated.size_eq, updated.members_eq, updated.queue_eq, sized,
    updated.weightOf, ?_, ?_, updated.elementsOf, updated.directOf,
    updated.degreeOf, updated.degree, updated.pivotWeight, updated.remaining⟩
  · intro j
    rw [parentOf, updated.parentOf, spent_eq]
    by_cases member : j ∈ state.spentBy left i
    · simp [member]
    · simp [member]
  · intro element
    rw [Bool.eq_iff_iff, isLive, updated.isLive, spent_eq]
    simp [and_assoc]

theorem lapse (inside : i < graph.size)
    (nodup : members.Nodup) (member : i ∈ members)
    (lapses : graph.lapses marks left i = true) :
    Updated graph pivot members marks left seen (done ++ [i])
      (state.lapse pivot i) := by
  have sized := updated.sized
  have inside' := updated.size_eq ▸ inside
  have weights : (state.lapse pivot i).graph.weightOf =
      Function.update state.graph.weightOf i 0 :=
    getD_setIfInBounds (by rwa [sized.weight]) 0 0
  have parents : (state.lapse pivot i).graph.parentOf =
      Function.update state.graph.parentOf i (some pivot) :=
    getD_setIfInBounds (by rwa [sized.parent]) (some pivot) none
  have renewed (j : Nat) : graph.renewed marks left (done ++ [i]) j =
      graph.renewed marks left done j := by
    simp [renewed_append, lapses]
  refine ⟨updated.size_eq, updated.members_eq, updated.queue_eq, ?_, ?_, ?_,
    updated.isLive, ?_, ?_, ?_, ?_, ?_, ?_⟩
  · exact { sized with
      weight := Array.size_setIfInBounds.trans sized.weight
      parent := Array.size_setIfInBounds.trans sized.parent }
  · intro j
    rw [weights, Function.update_apply, updated.weightOf, lapsed_append,
      lapses]
    by_cases same : j = i
    · simp [same]
    · simp [same]
  · intro j
    rw [parents, Function.update_apply, updated.parentOf, lapsed_append,
      lapses]
    by_cases same : j = i
    · simp [same]
    · simp [same]
  · intro j
    rw [renewed]
    exact updated.elementsOf j
  · intro j
    rw [renewed]
    exact updated.directOf j
  · intro j apart
    exact updated.degreeOf j fun old => apart (List.mem_append_left [i] old)
  · have before := @View.weightOfAll_clear state.graph.view i
      (state.lapse pivot i).graph.view members weights nodup member
    have : state.graph.view.weight i = state.graph.weightOf i := rfl
    have : (state.lapse pivot i).degree =
      state.degree - state.graph.weightOf i := rfl
    have := updated.degree
    omega
  · exact Nat.le_add_right_of_le updated.pivotWeight
  · simpa [Update.lapse, List.filter_append, lapses] using updated.remaining

theorem renew {bound key : Nat} (inside : i < graph.size)
    (lapses : graph.lapses marks left i = false) :
    Updated graph pivot members marks left seen (done ++ [i])
      (state.renew pivot bound key i (graph.keptOf left i)
        (graph.freeOf marks i)) := by
  have sized := updated.sized
  have inside' := updated.size_eq ▸ inside
  have elements : (state.renew pivot bound key i (graph.keptOf left i)
      (graph.freeOf marks i)).graph.elementsOf =
      Function.update state.graph.elementsOf i
        (pivot :: rotate (graph.keptOf left i)) :=
    getD_setIfInBounds (by rwa [sized.elements]) _ []
  have direct : (state.renew pivot bound key i (graph.keptOf left i)
      (graph.freeOf marks i)).graph.directOf =
      Function.update state.graph.directOf i
        (rotate (graph.freeOf marks i)) :=
    getD_setIfInBounds (by rwa [sized.direct]) _ []
  have degrees : (state.renew pivot bound key i (graph.keptOf left i)
      (graph.freeOf marks i)).graph.degreeOf =
      Function.update state.graph.degreeOf i
        (min (state.graph.degreeOf i) bound) :=
    getD_modify (by rwa [sized.degree]) _ 0
  have lapsed (j : Nat) : graph.lapsed marks left (done ++ [i]) j =
      graph.lapsed marks left done j := by
    simp [lapsed_append, lapses]
  refine ⟨updated.size_eq, updated.members_eq, updated.queue_eq, ?_, ?_, ?_,
    updated.isLive, ?_, ?_, ?_, updated.degree, updated.pivotWeight, ?_⟩
  · exact { sized with
      degree := Array.size_modify.trans sized.degree
      elements := Array.size_setIfInBounds.trans sized.elements
      direct := Array.size_setIfInBounds.trans sized.direct }
  · intro j
    rw [lapsed]
    exact updated.weightOf j
  · intro j
    rw [lapsed]
    exact updated.parentOf j
  · intro j
    rw [elements, Function.update_apply, updated.elementsOf, renewed_append,
      lapses]
    by_cases same : j = i
    · simp [same]
    · simp [same]
  · intro j
    rw [direct, Function.update_apply, updated.directOf, renewed_append,
      lapses]
    by_cases same : j = i
    · simp [same]
    · simp [same]
  · intro j apart
    simp only [List.mem_append, List.mem_singleton, not_or] at apart
    rw [degrees, Function.update_of_ne apart.2, updated.degreeOf j apart.1]
  · simpa [Update.renew, List.filter_append, lapses] using updated.remaining

end Updated

theorem Updated.step
    (updated : Updated graph pivot members marks left done done state)
    (fresh : i ∉ done) (inside : i < graph.size) (nodup : members.Nodup)
    (member : i ∈ members) (marked : ∀ j ∈ done, marks.getD j true = true) :
    Updated graph pivot members marks left (done ++ [i]) (done ++ [i])
      (state.step pivot marks left i) := by
  obtain ⟨bound, key, same⟩ := @Update.step_eq marks left pivot i state
  have absorbed := updated.absorbed fresh
    (@absorbed_foldl state.graph pivot (state.spentBy left i) updated.sized
      (by
        intro element member
        apply updated.sized.lt_of_isLive
        exact (List.mem_filter.mp (List.mem_filter.mp member).1).2))
  have free := absorbed.free_eq fresh marked
  rw [same, updated.kept_eq fresh]
  unfold Update.absorbing
  rw [free]
  cases lapses : graph.lapses marks left i with
  | true =>
      rw [show (_ && _) = true from lapses, if_pos rfl]
      exact absorbed.lapse inside nodup member lapses
  | false =>
      rw [show (_ && _) = false from lapses, if_neg Bool.false_ne_true]
      exact absorbed.renew inside lapses

theorem updated_start {weight : Nat} (sized : graph.Sized)
    (weighs : graph.weightOf pivot ≤ weight) :
    Updated graph pivot members marks left [] []
      ⟨graph, graph.weightOfAll members, weight, []⟩ where
  size_eq := rfl
  members_eq := rfl
  queue_eq := rfl
  sized := sized
  weightOf := by simp [lapsed]
  parentOf := by simp [lapsed, spent]
  isLive := by simp [spent]
  elementsOf := by simp [renewed]
  directOf := by simp [renewed]
  degreeOf := fun _ _ => rfl
  degree := Nat.le_refl _
  pivotWeight := weighs
  remaining := rfl

theorem updated_foldl
    (updated : Updated graph pivot members marks left [] [] state)
    (nodup : members.Nodup) (inside : ∀ i ∈ members, i < graph.size)
    (marked : ∀ i ∈ members, marks.getD i true = true) :
    Updated graph pivot members marks left members members
      (members.foldl (Update.step pivot marks left) state) := by
  apply Checked.foldl_holds (fun done =>
    Updated graph pivot members marks left done done) updated
  intro done i rest state split updated
  have member : i ∈ members := by simp [split]
  have fresh : i ∉ done := by
    intro again
    rw [split] at nodup
    exact List.disjoint_of_nodup_append nodup again (by simp)
  apply updated.step fresh (inside i member) nodup member
  intro j old
  exact marked j (split ▸ List.mem_append_left (i :: rest) old)

end QuasiDefinite.QuotientGraph
