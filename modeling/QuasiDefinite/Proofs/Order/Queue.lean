import QuasiDefinite.Proofs.Order.Views

namespace QuasiDefinite.QuotientGraph

variable {graph graph' rest : QuotientGraph} {waits waits' : Nat → Prop}
  {pivot i j degree elementDegree : Nat} {nodes : List Nat}

def queuedAt (graph : QuotientGraph) (degree : Nat) : List Nat :=
  graph.queue.getD degree []

structure Queued (waits : Nat → Prop) (graph : QuotientGraph) : Prop where
  waits : ∀ degree, ∀ i ∈ graph.queuedAt degree,
    waits i ∧ graph.degreeOf i = degree
  nodup : ∀ degree, (graph.queuedAt degree).Nodup

theorem Queued.transfer (queued : graph.Queued waits)
    (queue : graph'.queue = graph.queue)
    (degree : ∀ i, waits i → graph'.degreeOf i = graph.degreeOf i)
    (mono : ∀ i, waits i → waits' i) : graph'.Queued waits' := by
  have same (degree : Nat) : graph'.queuedAt degree = graph.queuedAt degree :=
    congrArg (·.getD degree []) queue
  refine ⟨?_, ?_⟩
  · intro degree' i member
    rw [same] at member
    obtain ⟨waiting, here⟩ := queued.waits degree' i member
    exact ⟨mono i waiting, (degree i waiting).trans here⟩
  · intro degree'
    rw [same]
    exact queued.nodup degree'

theorem takeLeast_eq_some (taken : graph.takeLeast = some (pivot, rest)) :
    ∃ degree others, graph.queuedAt degree = pivot :: others ∧
      rest = { graph with
        queue := graph.queue.setIfInBounds degree others } := by
  simp only [takeLeast, Option.bind_eq_bind, Option.bind_eq_some_iff] at taken
  obtain ⟨degree, _, taken⟩ := taken
  cases here : graph.queue.getD degree [] with
  | nil =>
      rw [here] at taken
      cases taken
  | cons first others =>
      rw [here] at taken
      obtain ⟨rfl, rfl⟩ := Prod.mk.inj (Option.some.inj taken)
      exact ⟨degree, others, here, rfl⟩

theorem Queued.takeLeast (queued : graph.Queued waits)
    (taken : graph.takeLeast = some (pivot, rest)) :
    waits pivot ∧ rest.Queued fun i => waits i ∧ i ≠ pivot := by
  obtain ⟨degree, others, here, rfl⟩ := takeLeast_eq_some taken
  have first := queued.waits degree pivot (by simp [here])
  have nodup := here ▸ queued.nodup degree
  have inside : degree < graph.queue.size := by
    apply Nat.lt_of_not_le
    intro outside
    simp [queuedAt, outside] at here
  have known (other : Nat) := congrFun
    (@getD_setIfInBounds _ graph.queue degree inside others []) other
  refine ⟨first.1, ⟨?_, ?_⟩⟩
  · intro other i member
    unfold queuedAt at member
    rw [known, Function.update_apply] at member
    split at member
    · next same =>
      subst same
      have old := queued.waits other i (by simp [here, member])
      refine ⟨⟨old.1, ?_⟩, old.2⟩
      intro again
      exact (List.nodup_cons.mp nodup).1 (again ▸ member)
    · next differs =>
      have old := queued.waits other i member
      refine ⟨⟨old.1, ?_⟩, old.2⟩
      intro again
      exact differs (old.2.symm.trans (again ▸ first.2))
  · intro other
    unfold queuedAt
    rw [known, Function.update_apply]
    split
    · exact (List.nodup_cons.mp nodup).2
    · exact queued.nodup other

theorem queuedAt_unqueue : (graph.unqueue i).queuedAt degree =
    if graph.degreeOf i = degree then (graph.queuedAt degree).erase i
    else graph.queuedAt degree := by
  unfold queuedAt unqueue
  simp only [Array.getD_eq_getD_getElem?, Array.getElem?_modify]
  split
  · cases graph.queue[degree]? with
    | none => rfl
    | some waiting => rfl
  · rfl

theorem Queued.unqueue (queued : graph.Queued waits) :
    (graph.unqueue i).Queued fun j => waits j ∧ j ≠ i := by
  refine ⟨?_, ?_⟩
  · intro degree j member
    rw [queuedAt_unqueue] at member
    split at member
    · rw [(queued.nodup degree).mem_erase_iff] at member
      have old := queued.waits degree j member.2
      exact ⟨⟨old.1, member.1⟩, old.2⟩
    · next elsewhere =>
      have old := queued.waits degree j member
      refine ⟨⟨old.1, ?_⟩, old.2⟩
      intro same
      exact elsewhere (same ▸ old.2)
  · intro degree
    rw [queuedAt_unqueue]
    split
    · exact (queued.nodup degree).erase i
    · exact queued.nodup degree

theorem foldl_unqueue : ∃ queue,
    nodes.foldl unqueue graph = { graph with queue := queue } := by
  induction nodes generalizing graph with
  | nil => exact ⟨_, rfl⟩
  | cons i nodes ih =>
      obtain ⟨queue, same⟩ := @ih (graph.unqueue i)
      exact ⟨queue, same⟩

theorem Queued.foldl_unqueue (queued : graph.Queued waits) :
    (nodes.foldl QuotientGraph.unqueue graph).Queued
      fun j => waits j ∧ j ∉ nodes := by
  induction nodes generalizing graph waits with
  | nil => simpa using queued
  | cons i nodes ih =>
      have after := ih (@Queued.unqueue _ _ i queued)
      simp only [and_assoc] at after
      simpa only [List.foldl_cons, List.mem_cons, not_or] using after

theorem queuedAt_enqueue : (graph.enqueue i degree).queuedAt j =
    graph.queuedAt j ∨ degree = j ∧
      (graph.enqueue i degree).queuedAt j = i :: graph.queuedAt j := by
  unfold queuedAt enqueue
  simp only [Array.getD_eq_getD_getElem?, Array.getElem?_modify]
  split
  · next same =>
    cases graph.queue[j]? with
    | none => exact .inl rfl
    | some waiting => exact .inr ⟨same, rfl⟩
  · exact .inl rfl

theorem Queued.enqueue (queued : graph.Queued waits) (fresh : ¬ waits i)
    (here : graph.degreeOf i = degree) :
    (graph.enqueue i degree).Queued fun j => waits j ∨ j = i := by
  refine ⟨?_, ?_⟩
  · intro other j member
    cases @queuedAt_enqueue graph i other degree with
    | inl same =>
        rw [same] at member
        exact (queued.waits other j member).imp_left .inl
    | inr added =>
        rw [added.2] at member
        cases List.mem_cons.mp member with
        | inl same => exact ⟨.inr same, same ▸ here.trans added.1⟩
        | inr old => exact (queued.waits other j old).imp_left .inl
  · intro other
    cases @queuedAt_enqueue graph i other degree with
    | inl same => exact same ▸ queued.nodup other
    | inr added =>
        rw [added.2]
        refine List.nodup_cons.mpr ⟨?_, queued.nodup other⟩
        intro member
        exact fresh (queued.waits other i member).1

structure Requeued (waits : Nat → Prop) (nodes : List Nat)
    (graph graph' : QuotientGraph) : Prop where
  frame : ∃ degree queue,
    graph' = { graph with degree := degree, queue := queue }
  size_degree : graph'.degree.size = graph.degree.size
  degreeOf : ∀ i, i ∉ nodes → graph'.degreeOf i = graph.degreeOf i
  queued : graph'.Queued fun i => waits i ∨ i ∈ nodes

def setDegree (graph : QuotientGraph) (i degree : Nat) : QuotientGraph :=
  { graph with degree := graph.degree.setIfInBounds i degree }

theorem degreeOf_setDegree (inside : i < graph.degree.size) :
    (graph.setDegree i degree).degreeOf =
      Function.update graph.degreeOf i degree :=
  getD_setIfInBounds inside degree 0

theorem requeue_eq : ∃ degree, graph.requeue elementDegree i =
    (graph.setDegree i degree).enqueue i degree :=
  ⟨_, rfl⟩

theorem requeued_requeue (queued : graph.Queued waits)
    (inside : i < graph.degree.size) (fresh : ¬ waits i) :
    Requeued waits [i] graph (graph.requeue elementDegree i) := by
  obtain ⟨degree, same⟩ := @requeue_eq graph i elementDegree
  have known := @degreeOf_setDegree graph i degree inside
  have apart (j : Nat) (other : j ≠ i) :
      (graph.setDegree i degree).degreeOf j = graph.degreeOf j := by
    rw [known, Function.update_of_ne other]
  have moved : (graph.setDegree i degree).Queued waits := by
    refine queued.transfer rfl ?_ fun _ waiting => waiting
    intro j waiting
    apply apart
    intro same
    exact fresh (same ▸ waiting)
  rw [same]
  refine ⟨⟨_, _, rfl⟩, Array.size_setIfInBounds, ?_, ?_⟩
  · intro j other
    exact apart j (by simpa using other)
  · have here : (graph.setDegree i degree).degreeOf i = degree := by
      rw [known, Function.update_self]
    simpa using moved.enqueue fresh here

theorem requeued_foldl (queued : graph.Queued waits)
    (inside : ∀ i ∈ nodes, i < graph.degree.size) (nodup : nodes.Nodup)
    (fresh : ∀ i ∈ nodes, ¬ waits i) :
    Requeued waits nodes graph
      (nodes.foldl (requeue elementDegree) graph) := by
  induction nodes generalizing graph waits with
  | nil => exact ⟨⟨_, _, rfl⟩, rfl, fun _ _ => rfl, by simpa using queued⟩
  | cons i nodes ih =>
      obtain ⟨unlisted, nodup⟩ := List.nodup_cons.mp nodup
      have first := @requeued_requeue graph waits i elementDegree queued
        (inside i (by simp)) (fresh i (by simp))
      have second := ih first.queued
        (by
          intro j member
          rw [first.size_degree]
          exact inside j (List.mem_cons_of_mem i member))
        nodup
        (by
          intro j member waiting
          cases waiting with
          | inl old => exact fresh j (List.mem_cons_of_mem i member) old
          | inr same =>
              rw [List.mem_singleton] at same
              exact unlisted (same ▸ member))
      refine ⟨?_, second.size_degree.trans first.size_degree, ?_, ?_⟩
      · obtain ⟨_, _, same⟩ := first.frame
        obtain ⟨degree, queue, same'⟩ := second.frame
        rw [same] at same'
        exact ⟨degree, queue, by rw [List.foldl_cons, same, same']⟩
      · intro j apart
        simp only [List.mem_cons, not_or] at apart
        rw [List.foldl_cons, second.degreeOf j apart.2,
          first.degreeOf j (by simpa using apart.1)]
      · simpa only [List.foldl_cons, List.mem_cons, List.not_mem_nil, or_false,
          or_assoc] using second.queued

end QuasiDefinite.QuotientGraph
