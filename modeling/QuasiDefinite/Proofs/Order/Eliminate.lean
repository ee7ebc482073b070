import QuasiDefinite.Proofs.Order.Queue
import QuasiDefinite.Proofs.Order.Settle
import QuasiDefinite.Proofs.Order.Update

/-!
Eliminating one variable. What the graph says goes through a round
(`Entered.round`), alike members are joined (`Entered.joined`), and the element
is closed (`Closing.running`).
-/

namespace QuasiDefinite.QuotientGraph

variable {formed : Set Nat} {graph before : QuotientGraph}
  {pivot i j element : Nat} {members : List Nat} {marks : Marks}
  {state : Update}

/-- The elements that the new one absorbs. -/
def absorbs (before graph : QuotientGraph) (pivot : Nat) (members : List Nat)
    (element : Nat) : Bool :=
  (before.elementsOf pivot).contains element ||
    graph.spent (graph.outside members) members element

theorem absorbs_iff : absorbs before graph pivot members element = true ↔
    element ∈ before.elementsOf pivot ∨
      graph.spent (graph.outside members) members element = true := by
  unfold absorbs
  rw [Bool.or_eq_true, List.contains_iff_mem]

/-- A graph before and after the neighbours of `pivot` are gathered and its
elements absorbed. -/
structure Entered (formed : Set Nat) (pivot : Nat) (members : List Nat)
    (marks : Marks) (before graph : QuotientGraph) : Prop where
  sized : before.Sized
  sound : before.view.Sound formed
  remains : before.view.Remains formed pivot
  gathered : Gathered before pivot (before.namedBy pivot) members marks
  absorbed : Absorbed (before.elementsOf pivot) pivot before graph

namespace Entered

variable (entered : Entered formed pivot members marks before graph)

include entered

theorem size_eq : graph.size = before.size := by
  obtain ⟨_, _, _, _, rfl⟩ := entered.absorbed.frame
  rfl

theorem view_eq : graph.view =
    { before.view with parent := graph.parentOf, live := graph.isLive } := by
  obtain ⟨_, _, _, _, rfl⟩ := entered.absorbed.frame
  rfl

theorem weightOf_eq : graph.weightOf = before.weightOf :=
  congrArg View.weight entered.view_eq

theorem elementsOf_eq : graph.elementsOf = before.elementsOf :=
  congrArg View.elements entered.view_eq

theorem directOf_eq : graph.directOf = before.directOf :=
  congrArg View.direct entered.view_eq

theorem membersOf_eq : graph.membersOf = before.membersOf :=
  congrArg View.members entered.view_eq

theorem degreeOf_eq : graph.degreeOf = before.degreeOf :=
  congrArg View.degree entered.view_eq

theorem mem_iff : i ∈ members ↔ before.weightOf i ≠ 0 ∧ i ≠ pivot ∧
    ((∃ element ∈ before.elementsOf pivot, i ∈ before.membersOf element) ∨
      i ∈ before.directOf pivot) := by
  rw [entered.gathered.mem_iff]
  unfold namedBy
  rw [List.mem_append, List.mem_flatMap, and_comm, and_assoc]

theorem members_remain (member : i ∈ members) :
    before.view.Remains formed i := by
  obtain ⟨weighs, _, near⟩ := entered.mem_iff.mp member
  have sound := entered.sound
  exact ⟨weighs, sound.incident.near_unformed sound.mutuals entered.remains
    near⟩

theorem inside (member : i ∈ members) : i < graph.size := by
  rw [entered.size_eq]
  exact entered.gathered.lt entered.sized member

theorem marked_iff (weighs : before.weightOf i ≠ 0) :
    marks.getD i true = true ↔ i = pivot ∨ i ∈ members :=
  entered.gathered.marked i (entered.sized.lt_of_weightOf weighs)

theorem absorbs_live
    (dies : absorbs before graph pivot members element = true) :
    before.isLive element = true := by
  cases absorbs_iff.mp dies with
  | inl belongs =>
      exact (entered.sound.incident.known pivot entered.remains element
        belongs).1
  | inr spends =>
      have lives := (spent_eq_true_iff.mp spends).1
      exact ((entered.absorbed.isLive element).mp lives).1

theorem absorbs_eq_false_iff (member : i ∈ members)
    (belongs : element ∈ before.elementsOf i) :
    absorbs before graph pivot members element = false ↔
      graph.isLive element = true ∧
        0 < beyond (graph.outside members) element := by
  have lives : before.isLive element = true :=
    (entered.sound.incident.known i (entered.members_remain member) element
      belongs).1
  have shared : ∃ i ∈ members, element ∈ graph.elementsOf i := by
    rw [entered.elementsOf_eq]
    exact ⟨i, member, belongs⟩
  rw [Bool.eq_false_iff, ne_eq, absorbs_iff, spent_eq_true_iff,
    entered.absorbed.isLive, Nat.pos_iff_ne_zero]
  simp only [shared, lives, true_and, and_true]
  tauto

theorem absorbs_within
    (dies : absorbs before graph pivot members element = true)
    (listed : j ∈ before.membersOf element) (weighs : before.weightOf j ≠ 0)
    (other : j ≠ pivot) : j ∈ members := by
  have lives := entered.absorbs_live dies
  cases absorbs_iff.mp dies with
  | inl belongs =>
      exact entered.mem_iff.mpr
        ⟨weighs, other, .inl ⟨element, belongs, listed⟩⟩
  | inr spends =>
      obtain ⟨lives', nothing, i, member, belongs⟩ :=
        spent_eq_true_iff.mp spends
      have sized := entered.absorbed.sized
      have remain (i : Nat) (member : i ∈ members) :=
        entered.members_remain member
      have nodup := entered.gathered.nodup
      have incident := entered.sound.incident
      have bound := entered.sound.weighed.le element lives
      obtain ⟨_, _, _, _, rfl⟩ := entered.absorbed.frame
      have outside := outside_outside sized fun i member =>
        incident.nodup i (remain i member)
      exact outside.mem_of_beyond_eq_zero nodup lives'
        (fun k member belongs =>
          (incident.known k (remain k member) element belongs).2)
        bound member belongs nothing listed weighs

theorem mem_keptOf (member : i ∈ members) :
    element ∈ graph.keptOf (graph.outside members) i ↔
      element ∈ before.elementsOf i ∧
        absorbs before graph pivot members element = false := by
  unfold keptOf
  rw [entered.elementsOf_eq]
  simp only [List.mem_filter, decide_eq_true_eq, and_assoc]
  apply and_congr_right
  intro belongs
  exact (entered.absorbs_eq_false_iff member belongs).symm

theorem mem_freeOf : j ∈ graph.freeOf marks i ↔ j ∈ before.directOf i ∧
    before.weightOf j ≠ 0 ∧ j ≠ pivot ∧ j ∉ members := by
  unfold freeOf
  rw [entered.weightOf_eq, entered.directOf_eq, List.mem_filter]
  apply and_congr_right
  intro _
  rw [Bool.and_eq_true, decide_eq_true_eq, Bool.not_eq_true',
    ← Bool.not_eq_true]
  apply and_congr_right
  intro weighs
  rw [entered.marked_iff weighs, not_or]

variable (updated : Updated graph pivot members marks (graph.outside members)
  members members state)

include updated

theorem round : View.Round formed before.view pivot members
    (graph.lapsed marks (graph.outside members) members)
    (absorbs before graph pivot members)
    (state.graph.view.seal pivot members state.degree) where
  pivot_remains := entered.remains
  nodup := entered.gathered.nodup
  mem_gathered := fun i => entered.mem_iff
  lapsed_gathered := by
    intro i lapses
    unfold lapsed at lapses
    rw [Bool.and_eq_true, List.contains_iff_mem] at lapses
    exact lapses.1
  absorbed_live := fun element dies => entered.absorbs_live dies
  absorbed_of_pivot := fun element belongs => absorbs_iff.mpr (.inl belongs)
  absorbed_within := fun element dies i listed weighs other =>
    entered.absorbs_within dies listed weighs other
  weight := by
    intro i
    refine (updated.weightOf i).trans ?_
    rw [entered.weightOf_eq]
    rfl
  parent := by
    intro i
    refine (updated.parentOf i).trans ?_
    rw [entered.absorbed.parentOf]
    unfold absorbs
    have old : before.view.parent i = before.parentOf i := rfl
    by_cases belongs : i ∈ before.elementsOf pivot
    · simp [belongs]
    · simp [belongs, old]
  live := by
    intro element
    have lives : (state.graph.view.seal pivot members state.degree).live
        element = Function.update state.graph.isLive pivot true element := rfl
    rw [lives, Function.update_apply, updated.isLive]
    have live := entered.absorbed.isLive element
    by_cases same : element = pivot
    · simp [same]
    · have old : before.view.live element = before.isLive element := rfl
      rw [if_neg same, Bool.eq_iff_iff, old]
      simp [same, live, absorbs, and_assoc]
  members := by
    have same : state.graph.membersOf = before.membersOf := by
      rw [← entered.membersOf_eq]
      unfold membersOf
      rw [updated.members_eq]
    exact congrArg (Function.update · pivot members) same
  degree := by
    intro element apart other
    refine (Function.update_of_ne other ..).trans ?_
    exact (updated.degreeOf element apart).trans
      (congrFun entered.degreeOf_eq element)
  degree_pivot := by
    rw [View.degree_seal]
    exact updated.degree
  elements := fun i apart =>
    (updated.elementsOf_eq apart).trans (congrFun entered.elementsOf_eq i)
  direct := fun i apart =>
    (updated.directOf_eq apart).trans (congrFun entered.directOf_eq i)
  mem_elements := by
    intro i member stays element
    rw [show (state.graph.view.seal pivot members state.degree).elements i = _
      from updated.elementsOf_renewed member stays, List.mem_cons,
      (rotate_perm _).mem_iff, entered.mem_keptOf member]
    rfl
  nodup_elements := by
    intro i member stays nodup apart
    rw [show (state.graph.view.seal pivot members state.degree).elements i = _
      from updated.elementsOf_renewed member stays, List.nodup_cons,
      (rotate_perm _).mem_iff, (rotate_perm _).nodup_iff,
      entered.mem_keptOf member]
    refine ⟨fun old => apart old.1, ?_⟩
    unfold keptOf
    rw [entered.elementsOf_eq]
    exact (nodup.filter _).filter _
  mem_direct := by
    intro i member stays j
    rw [show (state.graph.view.seal pivot members state.degree).direct i = _
      from updated.directOf_renewed member stays, (rotate_perm _).mem_iff,
      entered.mem_freeOf]
    rfl

theorem joined : Joined (insert pivot formed) pivot members state.degree
    (state.remaining.map Prod.fst) state.graph
    (state.graph.joinByKey state.remaining) := by
  have round := entered.round updated
  have sound := entered.sound
  apply joined_joinByKey updated.sized (round.sound sound)
  · rw [updated.remaining]
    exact List.nodup_reverse.mpr (entered.gathered.nodup.filter _)
  · intro i listed
    rw [updated.remaining, List.mem_reverse, List.mem_filter] at listed
    refine ⟨?_, round.gathered_unformed sound.incident sound.mutuals listed.1⟩
    have weight : state.graph.view.weight i = graph.weightOf i := by
      refine (updated.weightOf i).trans (if_neg ?_)
      have stays : graph.lapses marks (graph.outside members) i = false := by
        simpa using listed.2
      simp [lapsed, stays]
    rw [weight, entered.weightOf_eq]
    exact (entered.members_remain listed.1).1

end Entered

/-! The parts of an elimination. -/

def enter (graph : QuotientGraph) (pivot : Nat) (members : List Nat) :
    QuotientGraph :=
  let before := members.foldl unqueue graph
  let absorbed := (before.elementsOf pivot).foldl (absorb · pivot) before
  { absorbed with
    eliminated := absorbed.eliminated + graph.weightOf pivot
    front := absorbed.front.setIfInBounds pivot
      (graph.weightOf pivot + absorbed.weightOfAll members) }

def updateOf (graph : QuotientGraph) (pivot weight : Nat) (members : List Nat)
    (marks : Marks) : Update :=
  members.foldl (Update.step pivot marks (graph.outside members))
    ⟨graph, graph.weightOfAll members, weight, []⟩

def close (graph : QuotientGraph) (pivot : Nat) (remaining : List Nat)
    (update : Update) : QuotientGraph :=
  { graph with
    members := graph.members.setIfInBounds pivot remaining
    degree := graph.degree.setIfInBounds pivot update.degree
    weight := graph.weight.setIfInBounds pivot update.pivotWeight
    live := graph.live.setIfInBounds pivot (! remaining.isEmpty) }

theorem eliminate_eq (gathers : graph.gather pivot = (members, marks)) :
    let update := (graph.enter pivot members).updateOf pivot
      (graph.weightOf pivot) members marks
    let joined := update.graph.joinByKey update.remaining
    let remaining := members.filter (joined.weightOf · ≠ 0)
    graph.eliminate pivot =
      (remaining.foldl (requeue update.degree) joined).close pivot remaining
        update := by
  unfold eliminate
  rw [gathers]
  unfold updateOf enter close
  rfl

theorem entered_enter (sized : graph.Sized) (sound : graph.view.Sound formed)
    (remains : graph.view.Remains formed pivot)
    (gathered : Gathered graph pivot (graph.namedBy pivot) members marks) :
    Entered formed pivot members marks (members.foldl unqueue graph)
      (graph.enter pivot members) := by
  obtain ⟨queue, same⟩ := @foldl_unqueue graph members
  unfold enter
  rw [same]
  have absorbed := @absorbed_foldl { graph with queue := queue } pivot
    (graph.elementsOf pivot) { sized with }
    (by
      intro element belongs
      apply sized.lt_of_isLive
      exact (sound.incident.known pivot remains element belongs).1)
  exact {
    sized := { sized with }
    sound := sound
    remains := remains
    gathered := { gathered with }
    absorbed := absorbed.charge }

theorem Entered.updated {weight : Nat}
    (entered : Entered formed pivot members marks before graph)
    (weighs : graph.weightOf pivot ≤ weight) :
    Updated graph pivot members marks (graph.outside members) members members
      (graph.updateOf pivot weight members marks) := by
  have start := @updated_start graph marks (graph.outside members) pivot
    members weight entered.absorbed.sized weighs
  apply updated_foldl start entered.gathered.nodup
  · exact fun i member => entered.inside member
  · intro i member
    have weighs := (entered.mem_iff.mp member).1
    exact (entered.marked_iff weighs).mpr (.inr member)

/-- What holds between two rounds. -/
structure Running (size : Nat) (formed : Set Nat) (graph : QuotientGraph) :
    Prop where
  size_eq : graph.size = size
  sized : graph.Sized
  sound : graph.view.Sound formed
  queued : graph.Queued (graph.view.Remains formed)

/-- The graph in which an element is left to close. -/
structure Closing (formed : Set Nat) (pivot : Nat)
    (members remaining : List Nat) (state : Update) (graph : QuotientGraph) :
    Prop where
  sized : graph.Sized
  sound : (graph.view.seal pivot members state.degree).Sound formed
  pivot_formed : pivot ∈ formed
  weighs : graph.weightOf pivot ≠ 0
  weighs' : state.pivotWeight ≠ 0
  remaining_eq : remaining = members.filter (graph.weightOf · ≠ 0)
  queued : graph.Queued fun i => graph.view.Remains formed i ∧ i ∉ members

namespace Closing

variable {remaining : List Nat} {graph' : QuotientGraph}
  (closing : Closing formed pivot members remaining state graph)

include closing

theorem nodup : members.Nodup := by
  have nodup := closing.sound.weighed.nodup pivot View.live_seal
  rwa [View.members_seal] at nodup

theorem unformed (member : i ∈ members) : i ∉ formed := by
  apply closing.sound.incident.members_unformed pivot View.live_seal
  rwa [View.members_seal]

theorem remaining_iff :
    i ∈ remaining ↔ i ∈ members ∧ graph.weightOf i ≠ 0 := by
  rw [closing.remaining_eq, List.mem_filter, decide_eq_true_eq]

theorem requeued : Requeued
    (fun i => graph.view.Remains formed i ∧ i ∉ members) remaining graph
    (remaining.foldl (requeue state.degree) graph) := by
  apply requeued_foldl closing.queued
  · intro i member
    rw [closing.sized.degree]
    exact closing.sized.lt_of_weightOf (closing.remaining_iff.mp member).2
  · rw [closing.remaining_eq]
    exact closing.nodup.filter _
  · intro i member waits
    exact waits.2 (closing.remaining_iff.mp member).1

variable (requeued : Requeued
  (fun i => graph.view.Remains formed i ∧ i ∉ members) remaining graph graph')

include requeued

theorem degreeOf_close : (graph'.close pivot remaining state).degreeOf =
    Function.update graph'.degreeOf pivot state.degree := by
  have inside := closing.sized.lt_of_weightOf closing.weighs
  apply getD_setIfInBounds
  rwa [requeued.size_degree, closing.sized.degree]

theorem settles : View.Settles formed
    (graph.view.seal pivot members state.degree) pivot remaining
    (graph'.close pivot remaining state).view := by
  have sized := closing.sized
  have inside := sized.lt_of_weightOf closing.weighs
  have degrees : (graph'.close pivot remaining state).view.degree =
      Function.update graph'.degreeOf pivot state.degree :=
    closing.degreeOf_close requeued
  have apart := requeued.degreeOf
  obtain ⟨degree, queue, same⟩ := requeued.frame
  have weights : (graph'.close pivot remaining state).view.weight =
      Function.update graph.view.weight pivot state.pivotWeight := by
    rw [same]
    exact getD_setIfInBounds (by rwa [sized.weight]) _ 0
  have lives : (graph'.close pivot remaining state).view.live =
      Function.update graph.view.live pivot (! remaining.isEmpty) := by
    rw [same]
    exact getD_setIfInBounds (by rwa [sized.live]) _ false
  have members_eq : (graph'.close pivot remaining state).view.members =
      Function.update graph.view.members pivot remaining := by
    rw [same]
    exact getD_setIfInBounds (by rwa [sized.members]) _ []
  refine {
    pivot_formed := closing.pivot_formed
    lives := View.live_seal
    remaining_eq := ?_
    weighs := closing.weighs
    weighs' := ?_
    weight := ?_
    parent := by rw [same]; rfl
    live := ?_
    members := ?_
    degree := ?_
    elements := by rw [same]; rfl
    direct := by rw [same]; rfl }
  · rw [View.members_seal]
    exact closing.remaining_eq
  · rw [weights, Function.update_self]
    exact closing.weighs'
  · intro i other
    rw [weights, Function.update_of_ne other]
    rfl
  · rw [lives]
    exact (Function.update_idem ..).symm
  · rw [members_eq]
    exact (Function.update_idem ..).symm
  · intro element unlisted
    rw [degrees, Function.update_apply, apart element unlisted]
    exact (Function.update_apply ..).symm

theorem sized_close : (graph'.close pivot remaining state).Sized := by
  have sized := closing.sized
  have size_degree := requeued.size_degree.trans sized.degree
  obtain ⟨degree, queue, rfl⟩ := requeued.frame
  exact { sized with
    weight := Array.size_setIfInBounds.trans sized.weight
    members := Array.size_setIfInBounds.trans sized.members
    degree := Array.size_setIfInBounds.trans size_degree
    live := Array.size_setIfInBounds.trans sized.live }

theorem queued_close : (graph'.close pivot remaining state).Queued
    ((graph'.close pivot remaining state).view.Remains formed) := by
  have settles := closing.settles requeued
  have remains (i : Nat) (waits : graph.view.Remains formed i ∧ i ∉ members ∨
      i ∈ remaining) :
      (graph.view.seal pivot members state.degree).Remains formed i := by
    cases waits with
    | inl old => exact old.1
    | inr member =>
        have member := closing.remaining_iff.mp member
        exact ⟨member.2, closing.unformed member.1⟩
  refine requeued.queued.transfer rfl ?_ fun i waits =>
    settles.remains_iff.mpr (remains i waits)
  intro i waits
  rw [closing.degreeOf_close requeued, Function.update_of_ne]
  intro same
  exact (remains i waits).2 (same ▸ closing.pivot_formed)

theorem running {size : Nat} (size_eq : graph.size = size) :
    Running size formed (graph'.close pivot remaining state) where
  size_eq := by
    obtain ⟨_, _, rfl⟩ := requeued.frame
    exact size_eq
  sized := closing.sized_close requeued
  sound := (closing.settles requeued).sound closing.sound
  queued := closing.queued_close requeued

end Closing

namespace Entered

variable {graph' : QuotientGraph}
  (entered : Entered formed pivot members marks before graph)
  (updated : Updated graph pivot members marks (graph.outside members)
    members members state)
  (joined : Joined (insert pivot formed) pivot members state.degree
    (state.remaining.map Prod.fst) state.graph graph')

include entered updated joined

theorem weightOf_joined (apart : i ∉ members) :
    graph'.weightOf i = before.weightOf i := by
  have untouched : i ∉ state.remaining.map Prod.fst := by
    rw [updated.remaining, List.mem_reverse]
    intro listed
    exact apart (List.mem_of_mem_filter listed)
  rw [joined.weightOf i untouched, updated.weightOf, ← entered.weightOf_eq]
  simp [lapsed, apart]

theorem queued_joined
    (queued : graph.Queued fun i =>
      (before.view.Remains formed i ∧ i ≠ pivot) ∧ i ∉ members) :
    graph'.Queued fun i =>
      graph'.view.Remains (insert pivot formed) i ∧ i ∉ members := by
  have weights := fun i => @weightOf_joined _ _ _ _ i _ _ _ _ entered updated
    joined
  have queue : graph'.queue = graph.queue := by
    obtain ⟨_, _, rfl⟩ := joined.frame
    exact updated.queue_eq
  apply queued.transfer queue
  · intro i waits
    have degree := updated.degreeOf i waits.2
    obtain ⟨_, _, rfl⟩ := joined.frame
    exact degree
  · intro i ⟨⟨remains, other⟩, apart⟩
    refine ⟨⟨?_, ?_⟩, apart⟩
    · rw [show graph'.view.weight i = before.weightOf i from weights i apart]
      exact remains.1
    · rw [Set.mem_insert_iff, not_or]
      exact ⟨other, remains.2⟩

theorem closing
    (queued : graph.Queued fun i =>
      (before.view.Remains formed i ∧ i ≠ pivot) ∧ i ∉ members) :
    Closing (insert pivot formed) pivot members
      (members.filter (graph'.weightOf · ≠ 0)) state graph' where
  sized := joined.sized
  sound := joined.sound
  pivot_formed := Set.mem_insert pivot formed
  weighs := by
    rw [entered.weightOf_joined updated joined
      (entered.round updated).pivot_not_gathered]
    exact entered.remains.1
  weighs' := by
    have weighs : before.weightOf pivot ≠ 0 := entered.remains.1
    have atLeast := updated.pivotWeight
    rw [entered.weightOf_eq] at atLeast
    omega
  remaining_eq := rfl
  queued := entered.queued_joined updated joined queued

end Entered

theorem view_foldl_unqueue :
    (members.foldl unqueue graph).view = graph.view := by
  obtain ⟨queue, same⟩ := @foldl_unqueue graph members
  rw [same]
  rfl

theorem size_foldl_unqueue :
    (members.foldl unqueue graph).size = graph.size := by
  obtain ⟨queue, same⟩ := @foldl_unqueue graph members
  rw [same]

theorem Entered.queued {waits : Nat → Prop}
    (entered : Entered formed pivot members marks before graph)
    (queued : before.Queued waits) : graph.Queued waits := by
  obtain ⟨_, _, _, _, rfl⟩ := entered.absorbed.frame
  exact queued.transfer rfl (fun _ _ => rfl) fun _ waits => waits

theorem running_eliminate {size : Nat} (size_eq : graph.size = size)
    (sized : graph.Sized) (sound : graph.view.Sound formed)
    (remains : graph.view.Remains formed pivot)
    (queued : graph.Queued fun i =>
      graph.view.Remains formed i ∧ i ≠ pivot) :
    Running size (insert pivot formed) (graph.eliminate pivot) := by
  generalize gathers : graph.gather pivot = gathered
  obtain ⟨members, marks⟩ := gathered
  have gathered := gather_gathered sized (sized.lt_of_weightOf remains.1)
  rw [gathers] at gathered
  have entered := entered_enter sized sound remains gathered
  have same := @view_foldl_unqueue graph members
  have weight : (graph.enter pivot members).weightOf pivot =
      graph.weightOf pivot := by
    rw [entered.weightOf_eq]
    exact congrFun (congrArg View.weight same) pivot
  have updated := @Entered.updated formed _ _ pivot members marks
    (graph.weightOf pivot) entered weight.le
  have joined := entered.joined updated
  have closing := entered.closing updated joined <| by
    rw [same]
    exact entered.queued queued.foldl_unqueue
  rw [eliminate_eq gathers]
  apply closing.running closing.requeued
  obtain ⟨_, _, frame⟩ := joined.frame
  rw [frame]
  exact updated.size_eq.trans
    (entered.size_eq.trans (size_foldl_unqueue.trans size_eq))

end QuasiDefinite.QuotientGraph
