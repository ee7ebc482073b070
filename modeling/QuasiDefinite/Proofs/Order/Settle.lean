import QuasiDefinite.Proofs.Order.Gather

namespace QuasiDefinite.QuotientGraph.View

variable {formed : Set Nat} {view next : View} {pivot i : Nat}
  {remaining : List Nat}

structure Settles (formed : Set Nat) (view : View) (pivot : Nat)
    (remaining : List Nat) (next : View) : Prop where
  pivot_formed : pivot ∈ formed
  lives : view.live pivot = true
  remaining_eq : remaining =
    (view.members pivot).filter fun i => view.weight i ≠ 0
  weighs : view.weight pivot ≠ 0
  weighs' : next.weight pivot ≠ 0
  weight : ∀ i, i ≠ pivot → next.weight i = view.weight i
  parent : next.parent = view.parent
  live : next.live = Function.update view.live pivot (! remaining.isEmpty)
  members : next.members = Function.update view.members pivot remaining
  degree : ∀ element, element ∉ remaining →
    next.degree element = view.degree element
  elements : next.elements = view.elements
  direct : next.direct = view.direct

namespace Settles

variable (settles : Settles formed view pivot remaining next)

include settles

theorem weight_eq_zero_iff : next.weight i = 0 ↔ view.weight i = 0 := by
  by_cases same : i = pivot
  · subst same
    exact iff_of_false settles.weighs' settles.weighs
  · rw [settles.weight i same]

theorem remains_iff : next.Remains formed i ↔ view.Remains formed i :=
  and_congr_left fun _ => not_congr settles.weight_eq_zero_iff

theorem mem_remaining :
    i ∈ remaining ↔ i ∈ view.members pivot ∧ view.weight i ≠ 0 := by
  rw [settles.remaining_eq, List.mem_filter, decide_eq_true_eq]

theorem remaining_unformed (incident : view.Incident formed)
    (member : i ∈ remaining) : i ∉ formed := by
  have listed := (settles.mem_remaining.mp member).1
  exact incident.members_unformed pivot settles.lives i listed

theorem linked (linked : view.Linked formed) : next.Linked formed where
  forest := by
    have forest := linked.forest
    rw [settles.parent]
    refine ⟨forest.grounded, ?_, ?_⟩
    · intro node above link weighs none
      have weighed := mt settles.weight_eq_zero_iff.mpr weighs
      exact forest.held node above link weighed
        (settles.weight_eq_zero_iff.mp none)
    · intro node above link
      exact (forest.hosted node above link).imp_left
        (mt settles.weight_eq_zero_iff.mp)
  free := by
    intro i remains
    rw [settles.parent]
    exact linked.free i (settles.remains_iff.mp remains)
  next_formed := by
    intro i above link weighs
    rw [settles.parent] at link
    exact linked.next_formed i above link
      (mt settles.weight_eq_zero_iff.mpr weighs)

theorem live_iff {element : Nat} : next.live element = true ↔
    element = pivot ∧ remaining ≠ [] ∨
      element ≠ pivot ∧ view.live element = true := by
  rw [settles.live, Function.update_apply]
  by_cases same : element = pivot
  · simp [same]
  · simp [same]

theorem members_pivot : next.members pivot = remaining := by
  rw [settles.members, Function.update_self]

theorem members_of_ne {element : Nat} (other : element ≠ pivot) :
    next.members element = view.members element := by
  rw [settles.members, Function.update_of_ne other]

theorem incident (incident : view.Incident formed) :
    next.Incident formed where
  live_formed := by
    intro element lives
    cases settles.live_iff.mp lives with
    | inl here => exact here.1 ▸ settles.pivot_formed
    | inr old => exact incident.live_formed element old.2
  members_unformed := by
    intro element lives i member
    cases settles.live_iff.mp lives with
    | inl here =>
        rw [here.1, settles.members_pivot] at member
        exact settles.remaining_unformed incident member
    | inr old =>
        rw [settles.members_of_ne old.1] at member
        exact incident.members_unformed element old.2 i member
  nodup := by
    intro i remains
    rw [settles.elements]
    exact incident.nodup i (settles.remains_iff.mp remains)
  known := by
    intro i remains element belongs
    rw [settles.elements] at belongs
    have remained := settles.remains_iff.mp remains
    have known := incident.known i remained element belongs
    by_cases same : element = pivot
    · subst same
      have member := settles.mem_remaining.mpr ⟨known.2, remained.1⟩
      rw [settles.live_iff, settles.members_pivot]
      exact ⟨.inl ⟨rfl, List.ne_nil_of_mem member⟩, member⟩
    · rw [settles.live_iff, settles.members_of_ne same]
      exact ⟨.inr ⟨same, known.1⟩, known.2⟩
  listed := by
    intro i element remains lives member
    have remained := settles.remains_iff.mp remains
    rw [settles.elements]
    cases settles.live_iff.mp lives with
    | inl here =>
        obtain ⟨rfl, _⟩ := here
        rw [settles.members_pivot] at member
        have listed := (settles.mem_remaining.mp member).1
        exact incident.listed i element remained settles.lives listed
    | inr old =>
        rw [settles.members_of_ne old.1] at member
        exact incident.listed i element remained old.2 member

theorem mutuals (mutuals : view.Mutual formed) : next.Mutual formed where
  direct_unformed := by
    intro i remains
    rw [settles.direct]
    exact mutuals.direct_unformed i (settles.remains_iff.mp remains)
  symm := by
    intro i j remains remains'
    rw [settles.direct]
    exact mutuals.symm i j (settles.remains_iff.mp remains)
      (settles.remains_iff.mp remains')

theorem weightOfAll_eq {nodes : List Nat}
    (unformed : ∀ i ∈ nodes, i ∉ formed) :
    next.weightOfAll nodes = view.weightOfAll nodes := by
  apply weightOfAll_congr
  intro i member
  apply settles.weight
  intro same
  exact unformed i member (same ▸ settles.pivot_formed)

theorem weighed (incident : view.Incident formed) (weighed : view.Weighed) :
    next.Weighed where
  nodup := by
    intro element lives
    cases settles.live_iff.mp lives with
    | inl here =>
        rw [here.1, settles.members_pivot, settles.remaining_eq]
        exact (weighed.nodup pivot settles.lives).filter _
    | inr old =>
        rw [settles.members_of_ne old.1]
        exact weighed.nodup element old.2
  le := by
    intro element lives
    have apart : element ∉ remaining := by
      intro member
      apply settles.remaining_unformed incident member
      cases settles.live_iff.mp lives with
      | inl here => exact here.1 ▸ settles.pivot_formed
      | inr old => exact incident.live_formed element old.2
    rw [settles.degree element apart]
    cases settles.live_iff.mp lives with
    | inl here =>
        obtain ⟨rfl, _⟩ := here
        have nodup := weighed.nodup element settles.lives
        rw [settles.members_pivot, settles.weightOfAll_eq fun i member =>
          settles.remaining_unformed incident member]
        calc
          _ ≤ view.weightOfAll (view.members element) := by
            rw [settles.remaining_eq]
            exact weightOfAll_le_of_subset (nodup.filter _)
              (List.filter_subset_self ..)
          _ ≤ view.degree element := weighed.le element settles.lives
    | inr old =>
        rw [settles.members_of_ne old.1, settles.weightOfAll_eq
          (incident.members_unformed element old.2)]
        exact weighed.le element old.2

theorem sound (sound : view.Sound formed) : next.Sound formed where
  linked := settles.linked sound.linked
  incident := settles.incident sound.incident
  mutuals := settles.mutuals sound.mutuals
  weighed := settles.weighed sound.incident sound.weighed

end Settles

end QuasiDefinite.QuotientGraph.View
