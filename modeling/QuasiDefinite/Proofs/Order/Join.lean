import QuasiDefinite.Proofs.Order.Views
import QuasiDefinite.Proofs.Sums

namespace QuasiDefinite.QuotientGraph

namespace View

variable {formed : Set Nat} {view : View} {keeper other i : Nat}

def join (view : View) (keeper other : Nat) : View :=
  { view with
    weight := Function.update (Function.update view.weight keeper
      (view.weight keeper + view.weight other)) other 0
    parent := Function.update view.parent other (some keeper) }

/-- Two variables that are left, the second in all elements of the first. -/
structure Joins (formed : Set Nat) (view : View) (keeper other : Nat) :
    Prop where
  keeper_remains : view.Remains formed keeper
  other_remains : view.Remains formed other
  differs : keeper ≠ other
  within : view.elements keeper ⊆ view.elements other

theorem weightOfAll_perm {nodes nodes' : List Nat} (perm : nodes.Perm nodes') :
    view.weightOfAll nodes = view.weightOfAll nodes' := by
  unfold weightOfAll
  rw [total_eq_sum, total_eq_sum]
  exact (perm.map view.weight).sum_eq

theorem weightOfAll_clear {next : View} {nodes : List Nat}
    (weight : next.weight = Function.update view.weight i 0)
    (nodup : nodes.Nodup) (member : i ∈ nodes) :
    next.weightOfAll nodes + view.weight i = view.weightOfAll nodes := by
  have perm := List.perm_cons_erase member
  have same : next.weightOfAll (nodes.erase i) =
      view.weightOfAll (nodes.erase i) := by
    apply weightOfAll_congr
    intro j here
    rw [weight, Function.update_of_ne (nodup.mem_erase_iff.mp here).1]
  have own : next.weight i = 0 := by rw [weight, Function.update_self]
  rw [weightOfAll_perm perm, weightOfAll_perm perm]
  unfold weightOfAll at same ⊢
  simp only [List.map_cons, total, same, own]
  omega

theorem weight_join : (view.join keeper other).weight i =
    if i = other then 0
    else if i = keeper then view.weight keeper + view.weight other
    else view.weight i := by
  simp only [join, Function.update_apply]

theorem parent_join : (view.join keeper other).parent i =
    if i = other then some keeper else view.parent i := by
  simp only [join, Function.update_apply]

theorem weightOfAll_join_le {nodes : List Nat} (nodup : nodes.Nodup)
    (differs : keeper ≠ other) (both : keeper ∈ nodes → other ∈ nodes) :
    (view.join keeper other).weightOfAll nodes ≤ view.weightOfAll nodes := by
  by_cases member : keeper ∈ nodes
  · have first := List.perm_cons_erase member
    have member' : other ∈ nodes.erase keeper :=
      (List.mem_erase_of_ne differs.symm).mpr (both member)
    have perm := first.trans ((List.perm_cons_erase member').cons keeper)
    have nodup' := perm.nodup_iff.mp nodup
    rw [weightOfAll_perm perm, weightOfAll_perm perm]
    generalize (nodes.erase keeper).erase other = rest at nodup'
    have same : (view.join keeper other).weightOfAll rest =
        view.weightOfAll rest := by
      apply weightOfAll_congr
      intro i here
      have kept : i ≠ keeper := by
        intro same
        simp [same ▸ here] at nodup'
      have apart : i ≠ other := by
        intro same
        simp [same ▸ here] at nodup'
      rw [weight_join, if_neg apart, if_neg kept]
    unfold weightOfAll at same ⊢
    simp only [List.map_cons, total, same, weight_join, if_true,
      if_neg differs]
    omega
  · apply weightOfAll_le
    intro i here
    have kept : i ≠ keeper := by
      intro same
      exact member (same ▸ here)
    rw [weight_join, if_neg kept]
    split
    · exact Nat.zero_le _
    · exact Nat.le_refl _

namespace Joins

variable (joins : Joins formed view keeper other)

include joins

theorem remains_iff : (view.join keeper other).Remains formed i ↔
    view.Remains formed i ∧ i ≠ other := by
  have weighs := joins.keeper_remains.1
  unfold Remains
  rw [weight_join]
  by_cases same : i = other
  · simp [same]
  · by_cases same' : i = keeper
    · simp [same', weighs, joins.differs]
    · simp [same, same']

theorem linked (linked : view.Linked formed) :
    (view.join keeper other).Linked formed := by
  have differs := joins.differs
  have weighs := joins.keeper_remains.1
  apply @Linked.link _ _ _ formed keeper (· == other) linked
  · intro i
    simp [parent_join]
  · intro i none
    have kept : i ≠ keeper := by
      intro same
      exact weighs (same ▸ none)
    simp [weight_join, kept, none]
  · intro i weighs' none
    by_cases same : i = other
    · rw [same]
      exact ⟨by simp, joins.other_remains.2⟩
    · by_cases same' : i = keeper
      · simp [weight_join, same', differs, weighs] at none
      · simp [weight_join, same, same', weighs'] at none
  · intro i remains
    obtain ⟨remained, apart⟩ := joins.remains_iff.mp remains
    exact ⟨remained, by simpa using apart⟩
  · simp [weight_join, differs, weighs]
  · rw [parent_join, if_neg differs]
    exact linked.free keeper joins.keeper_remains
  · intro i moves weighs'
    simp [weight_join, eq_of_beq moves] at weighs'
  · exact Set.Subset.rfl

theorem sound (sound : view.Sound formed) :
    (view.join keeper other).Sound formed where
  linked := joins.linked sound.linked
  incident := by
    have incident := sound.incident
    exact {
      live_formed := incident.live_formed
      members_unformed := incident.members_unformed
      nodup := fun i remains =>
        incident.nodup i (joins.remains_iff.mp remains).1
      known := fun i remains =>
        incident.known i (joins.remains_iff.mp remains).1
      listed := fun i element remains =>
        incident.listed i element (joins.remains_iff.mp remains).1 }
  mutuals := by
    have mutuals := sound.mutuals
    exact {
      direct_unformed := fun i remains =>
        mutuals.direct_unformed i (joins.remains_iff.mp remains).1
      symm := fun i j remains remains' =>
        mutuals.symm i j (joins.remains_iff.mp remains).1
          (joins.remains_iff.mp remains').1 }
  weighed := by
    refine ⟨sound.weighed.nodup, ?_⟩
    intro element lives
    calc
      _ ≤ view.weightOfAll (view.members element) := by
        apply weightOfAll_join_le (sound.weighed.nodup element lives)
          joins.differs
        intro member
        have belongs := sound.incident.listed keeper element
          joins.keeper_remains lives member
        exact (sound.incident.known other joins.other_remains element
          (joins.within belongs)).2
      _ ≤ view.degree element := sound.weighed.le element lives

end Joins

end View

/-! Joining in a graph. -/

variable {formed : Set Nat} {graph graph' : QuotientGraph}
  {keeper other pivot degree : Nat} {members : List Nat}

theorem Sized.join (sized : graph.Sized) : (graph.join keeper other).Sized where
  weight := by simp [QuotientGraph.join, sized.weight]
  direct := sized.direct
  elements := sized.elements
  members := sized.members
  degree := sized.degree
  live := sized.live
  parent := by simp [QuotientGraph.join, sized.parent]

theorem Sized.view_join (sized : graph.Sized) (keeper_lt : keeper < graph.size)
    (other_lt : other < graph.size) :
    (graph.join keeper other).view = graph.view.join keeper other := by
  have weight : (graph.join keeper other).weightOf =
      (graph.view.join keeper other).weight := by
    unfold weightOf QuotientGraph.join
    rw [getD_setIfInBounds (by simpa [sized.weight] using other_lt),
      getD_modify (by simpa [sized.weight] using keeper_lt)]
    rfl
  have parent : (graph.join keeper other).parentOf =
      (graph.view.join keeper other).parent := by
    unfold parentOf QuotientGraph.join
    rw [getD_setIfInBounds (by simpa [sized.parent] using other_lt)]
    rfl
  unfold view
  rw [weight, parent]
  rfl

theorem sameNeighbours_within {alike : Nat}
    (same : graph.sameNeighbours keeper alike = true)
    (nodup : (graph.elementsOf alike).Nodup) :
    graph.elementsOf keeper ⊆ graph.elementsOf alike := by
  unfold sameNeighbours at same
  simp only [Bool.and_eq_true, beq_iff_eq, List.all_eq_true,
    List.contains_iff_mem] at same
  obtain ⟨⟨length, _⟩, subset, _⟩ := same
  have perm := (nodup.subperm subset).perm_of_length_le (by rw [length])
  exact perm.symm.subset

def View.seal (view : View) (pivot : Nat) (members : List Nat)
    (degree : Nat) : View :=
  { view with
    members := Function.update view.members pivot members
    degree := Function.update view.degree pivot degree
    live := Function.update view.live pivot true }

@[simp] theorem View.members_seal {view : View} :
    (view.seal pivot members degree).members pivot = members :=
  Function.update_self ..

@[simp] theorem View.degree_seal {view : View} :
    (view.seal pivot members degree).degree pivot = degree :=
  Function.update_self ..

@[simp] theorem View.live_seal {view : View} :
    (view.seal pivot members degree).live pivot = true :=
  Function.update_self ..

/-- What joining variables of a list with each other changes. -/
structure Joined (formed : Set Nat) (pivot : Nat) (members : List Nat)
    (degree : Nat) (touched : List Nat) (graph graph' : QuotientGraph) :
    Prop where
  frame : ∃ weight parent,
    graph' = { graph with weight := weight, parent := parent }
  sized : graph'.Sized
  sound : (graph'.view.seal pivot members degree).Sound formed
  weightOf : ∀ i, i ∉ touched → graph'.weightOf i = graph.weightOf i
  weightOf_zero : ∀ i, graph.weightOf i = 0 → graph'.weightOf i = 0

namespace Joined

variable {touched touched' : List Nat} {graph'' : QuotientGraph}

theorem refl (sized : graph.Sized)
    (sound : (graph.view.seal pivot members degree).Sound formed) :
    Joined formed pivot members degree touched graph graph where
  frame := ⟨graph.weight, graph.parent, rfl⟩
  sized := sized
  sound := sound
  weightOf := fun _ _ => rfl
  weightOf_zero := fun _ none => none

theorem trans
    (first : Joined formed pivot members degree touched graph graph')
    (second : Joined formed pivot members degree touched' graph' graph'')
    {all : List Nat} (subset : touched ⊆ all) (subset' : touched' ⊆ all) :
    Joined formed pivot members degree all graph graph'' where
  frame := by
    obtain ⟨_, _, rfl⟩ := first.frame
    obtain ⟨weight, parent, rfl⟩ := second.frame
    exact ⟨weight, parent, rfl⟩
  sized := second.sized
  sound := second.sound
  weightOf := by
    intro i apart
    rw [second.weightOf i fun member => apart (subset' member),
      first.weightOf i fun member => apart (subset member)]
  weightOf_zero := by
    intro i none
    exact second.weightOf_zero i (first.weightOf_zero i none)

theorem mono
    (joined : Joined formed pivot members degree touched graph graph')
    (subset : touched ⊆ touched') :
    Joined formed pivot members degree touched' graph graph' where
  frame := joined.frame
  sized := joined.sized
  sound := joined.sound
  weightOf := fun i apart =>
    joined.weightOf i fun member => apart (subset member)
  weightOf_zero := joined.weightOf_zero

theorem remains
    (joined : Joined formed pivot members degree touched graph graph')
    {i : Nat} (apart : i ∉ touched) (remains : graph.view.Remains formed i) :
    graph'.view.Remains formed i := by
  refine ⟨?_, remains.2⟩
  have same : graph'.view.weight i = graph.view.weight i :=
    joined.weightOf i apart
  rw [same]
  exact remains.1

end Joined

theorem joined_join (sized : graph.Sized)
    (sound : (graph.view.seal pivot members degree).Sound formed)
    (joins : graph.view.Joins formed keeper other) :
    Joined formed pivot members degree [keeper, other] graph
      (graph.join keeper other) := by
  have view := sized.view_join
    (sized.lt_of_weightOf joins.keeper_remains.1)
    (sized.lt_of_weightOf joins.other_remains.1)
  have weights : (graph.join keeper other).weightOf =
      (graph.view.join keeper other).weight := congrArg View.weight view
  have sealed :
      (graph.view.seal pivot members degree).Joins formed keeper other :=
    ⟨joins.keeper_remains, joins.other_remains, joins.differs, joins.within⟩
  refine ⟨⟨_, _, rfl⟩, sized.join, ?_, ?_, ?_⟩
  · rw [view]
    exact sealed.sound sound
  · intro i apart
    simp only [List.mem_cons, List.not_mem_nil, or_false, not_or] at apart
    rw [weights, View.weight_join, if_neg apart.2, if_neg apart.1]
    rfl
  · intro i none
    have kept : i ≠ keeper := by
      intro same
      exact joins.keeper_remains.1 (same ▸ none)
    rw [weights, View.weight_join, if_neg kept]
    split
    · rfl
    · exact none

theorem joined_foldl {alike : List Nat} (sized : graph.Sized)
    (sound : (graph.view.seal pivot members degree).Sound formed)
    (nodup : (keeper :: alike).Nodup)
    (remains : ∀ i ∈ keeper :: alike, graph.view.Remains formed i)
    (within : ∀ i ∈ alike, graph.elementsOf keeper ⊆ graph.elementsOf i) :
    Joined formed pivot members degree (keeper :: alike) graph
      (alike.foldl (QuotientGraph.join · keeper) graph) := by
  induction alike generalizing graph with
  | nil => exact .refl sized sound
  | cons other alike ih =>
      have differs : keeper ≠ other := by
        intro same
        simp [same] at nodup
      have joins : graph.view.Joins formed keeper other :=
        ⟨remains keeper (by simp), remains other (by simp), differs,
          within other (by simp)⟩
      have first := joined_join sized sound joins
      have view := sized.view_join
        (sized.lt_of_weightOf joins.keeper_remains.1)
        (sized.lt_of_weightOf joins.other_remains.1)
      rw [List.foldl_cons]
      apply first.trans (ih first.sized first.sound ?_ ?_ ?_)
      · simp
      · simp
      · simp only [List.nodup_cons, List.mem_cons, not_or] at nodup ⊢
        exact ⟨nodup.1.2, nodup.2.2⟩
      · intro i member
        rw [view, joins.remains_iff]
        constructor
        · apply remains
          simp only [List.mem_cons] at member ⊢
          exact member.imp_right .inr
        · intro same
          subst same
          simp only [List.nodup_cons, List.mem_cons, not_or] at nodup member
          cases member with
          | inl keeps => exact differs keeps.symm
          | inr later => exact nodup.2.1 later
      · intro i member
        exact within i (List.mem_cons_of_mem other member)

theorem joinAlike_cons {rest : List Nat} :
    graph.joinAlike (keeper :: rest) =
      ((rest.filter (graph.sameNeighbours keeper)).foldl
        (QuotientGraph.join · keeper) graph).joinAlike
          (rest.filter (! graph.sameNeighbours keeper ·)) := by
  rw [joinAlike]

theorem joined_joinAlike {candidates : List Nat} (sized : graph.Sized)
    (sound : (graph.view.seal pivot members degree).Sound formed)
    (nodup : candidates.Nodup)
    (remains : ∀ i ∈ candidates, graph.view.Remains formed i) :
    Joined formed pivot members degree candidates graph
      (graph.joinAlike candidates) := by
  generalize length_eq : candidates.length = length
  induction length using Nat.strong_induction_on
    generalizing graph candidates with
  | _ length ih =>
  cases candidates with
  | nil =>
      rw [joinAlike]
      exact .refl sized sound
  | cons keeper rest =>
      have parts := List.nodup_cons.mp nodup
      have remains' (i : Nat) (member : i ∈ rest) :=
        remains i (List.mem_cons_of_mem keeper member)
      have first := @joined_foldl formed graph keeper pivot degree members
        (rest.filter (graph.sameNeighbours keeper)) sized sound
        (by
          refine List.nodup_cons.mpr ⟨?_, parts.2.filter _⟩
          intro member
          exact parts.1 (List.mem_of_mem_filter member))
        (by
          intro i member
          apply remains
          simp only [List.mem_cons] at member ⊢
          exact member.imp_right List.mem_of_mem_filter)
        (by
          intro i member
          obtain ⟨here, same⟩ := List.mem_filter.mp member
          exact sameNeighbours_within same
            (sound.incident.nodup i (remains' i here)))
      have shorter : (rest.filter (! graph.sameNeighbours keeper ·)).length <
          length := by
        rw [← length_eq]
        exact Nat.lt_succ_of_le (List.length_filter_le ..)
      have second := ih _ shorter first.sized first.sound (parts.2.filter _)
        (by
          intro i member
          obtain ⟨here, unlike⟩ := List.mem_filter.mp member
          apply first.remains _ (remains' i here)
          intro touched
          cases List.mem_cons.mp touched with
          | inl same => exact parts.1 (same ▸ here)
          | inr alike =>
              have same := (List.mem_filter.mp alike).2
              simp [same] at unlike)
        rfl
      rw [joinAlike_cons]
      apply first.trans second
      · exact List.cons_subset_cons keeper (List.filter_subset_self ..)
      · intro i member
        exact List.mem_cons_of_mem keeper (List.mem_of_mem_filter member)

theorem joined_groups {groups : List (List Nat)} (sized : graph.Sized)
    (sound : (graph.view.seal pivot members degree).Sound formed)
    (nodup : groups.flatten.Nodup)
    (remains : ∀ i ∈ groups.flatten, graph.view.Remains formed i) :
    Joined formed pivot members degree groups.flatten graph
      (groups.foldl joinAlike graph) := by
  induction groups generalizing graph with
  | nil => exact .refl sized sound
  | cons group groups ih =>
      rw [List.flatten_cons] at nodup remains ⊢
      rw [List.nodup_append] at nodup
      have first := joined_joinAlike sized sound nodup.1 fun i member =>
        remains i (List.mem_append_left _ member)
      rw [List.foldl_cons]
      apply first.trans (ih first.sized first.sound nodup.2.1 ?_)
        (List.subset_append_left _ _) (List.subset_append_right _ _)
      intro i member
      apply first.remains _ (remains i (List.mem_append_right _ member))
      intro member'
      exact nodup.2.2 i member' i member rfl

theorem flatten_modify_cons (groups : List (List Nat)) (key i : Nat) :
    (groups.modify key (i :: ·)).flatten.Subperm (i :: groups.flatten) := by
  induction groups generalizing key with
  | nil => simp
  | cons group groups ih =>
      cases key with
      | zero => exact List.Subperm.refl _
      | succ key =>
          rw [List.modify_succ_cons, List.flatten_cons, List.flatten_cons]
          apply List.Subperm.trans _ List.perm_middle.subperm
          exact (List.subperm_append_left group).mpr (ih key)

theorem flatten_fill (entries : List (Nat × Nat))
    (buckets : Array (List Nat)) :
    (entries.foldl (fun buckets (i, key) => buckets.modify key (i :: ·))
      buckets).toList.flatten.Subperm
        (entries.map Prod.fst ++ buckets.toList.flatten) := by
  induction entries generalizing buckets with
  | nil => exact List.Subperm.refl _
  | cons entry entries ih =>
      obtain ⟨i, key⟩ := entry
      rw [List.foldl_cons, List.map_cons]
      have added := flatten_modify_cons buckets.toList key i
      rw [← Array.toList_modify] at added
      apply (ih _).trans
      apply ((List.subperm_append_left (entries.map Prod.fst)).mpr added).trans
      exact List.perm_middle.subperm

theorem joined_joinByKey {keyed : List (Nat × Nat)} (sized : graph.Sized)
    (sound : (graph.view.seal pivot members degree).Sound formed)
    (nodup : (keyed.map Prod.fst).Nodup)
    (remains : ∀ i ∈ keyed.map Prod.fst, graph.view.Remains formed i) :
    Joined formed pivot members degree (keyed.map Prod.fst) graph
      (graph.joinByKey keyed) := by
  unfold joinByKey
  rw [← Array.foldl_toList]
  have filled := flatten_fill keyed.reverse (Array.replicate graph.size [])
  generalize keyed.reverse.foldl _ _ = buckets at filled
  have subperm : buckets.toList.flatten.Subperm (keyed.map Prod.fst) := by
    apply filled.trans
    simp only [List.map_reverse, Array.toList_replicate,
      List.flatten_replicate_nil, List.append_nil]
    exact (List.reverse_perm _).subperm
  apply (joined_groups sized sound ?_ ?_).mono subperm.subset
  · obtain ⟨part, perm, sublist⟩ := subperm
    exact perm.nodup_iff.mp (sublist.nodup nodup)
  · intro i member
    exact remains i (subperm.subset member)

end QuasiDefinite.QuotientGraph
