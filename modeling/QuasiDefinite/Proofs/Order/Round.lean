import Mathlib.Logic.Function.Basic
import QuasiDefinite.Proofs.Order.Postorder

/-!
One round of an elimination, apart from how it is computed. A variable that is
left is gathered with its neighbours into an element; elements that lie within
are absorbed, and neighbours that have no others lapse (`Round`). What variables
and elements know of each other stays right.
-/

namespace QuasiDefinite.QuotientGraph

/-- What the arrays of a graph say, everywhere. -/
structure View where
  weight : Nat → Nat
  direct : Nat → List Nat
  elements : Nat → List Nat
  members : Nat → List Nat
  degree : Nat → Nat
  live : Nat → Bool
  parent : Nat → Option Nat

namespace View

/-- Is this a variable that is left to eliminate? -/
def Remains (formed : Set Nat) (view : View) (i : Nat) : Prop :=
  view.weight i ≠ 0 ∧ i ∉ formed

def weightOfAll (view : View) (nodes : List Nat) : Nat :=
  total (nodes.map view.weight)

/-- Nodes are linked to what eliminated or absorbed them, and variables that are
left to nothing. -/
structure Linked (formed : Set Nat) (view : View) : Prop where
  forest : Forest view.weight view.parent
  free : ∀ i, view.Remains formed i → view.parent i = none
  next_formed : ∀ i next, view.parent i = some next → view.weight i ≠ 0 →
    next ∈ formed

/-- A variable that is left belongs to live elements only, and it lists the
elements that list it. -/
structure Incident (formed : Set Nat) (view : View) : Prop where
  live_formed : ∀ element, view.live element = true → element ∈ formed
  members_unformed : ∀ element, view.live element = true →
    ∀ i ∈ view.members element, i ∉ formed
  nodup : ∀ i, view.Remains formed i → (view.elements i).Nodup
  known : ∀ i, view.Remains formed i → ∀ element ∈ view.elements i,
    view.live element = true ∧ i ∈ view.members element
  listed : ∀ i element, view.Remains formed i → view.live element = true →
    i ∈ view.members element → element ∈ view.elements i

structure Mutual (formed : Set Nat) (view : View) : Prop where
  direct_unformed : ∀ i, view.Remains formed i →
    ∀ j ∈ view.direct i, j ∉ formed
  symm : ∀ i j, view.Remains formed i → view.Remains formed j →
    j ∈ view.direct i → i ∈ view.direct j

/-- A live element weighs at least what its members weigh. -/
structure Weighed (view : View) : Prop where
  nodup : ∀ element, view.live element = true → (view.members element).Nodup
  le : ∀ element, view.live element = true →
    view.weightOfAll (view.members element) ≤ view.degree element

structure Sound (formed : Set Nat) (view : View) : Prop where
  linked : view.Linked formed
  incident : view.Incident formed
  mutuals : view.Mutual formed
  weighed : view.Weighed

/-- What eliminating `pivot` does before alike variables are joined. -/
structure Round (formed : Set Nat) (view : View) (pivot : Nat)
    (gathered : List Nat) (lapsed absorbed : Nat → Bool) (next : View) :
    Prop where
  pivot_remains : view.Remains formed pivot
  nodup : gathered.Nodup
  mem_gathered : ∀ i, i ∈ gathered ↔ view.weight i ≠ 0 ∧ i ≠ pivot ∧
    ((∃ element ∈ view.elements pivot, i ∈ view.members element) ∨
      i ∈ view.direct pivot)
  lapsed_gathered : ∀ i, lapsed i = true → i ∈ gathered
  absorbed_live : ∀ element, absorbed element = true →
    view.live element = true
  absorbed_of_pivot : ∀ element ∈ view.elements pivot,
    absorbed element = true
  absorbed_within : ∀ element, absorbed element = true →
    ∀ i ∈ view.members element, view.weight i ≠ 0 → i ≠ pivot → i ∈ gathered
  weight : ∀ i, next.weight i = if lapsed i then 0 else view.weight i
  parent : ∀ i, next.parent i =
    if lapsed i || absorbed i then some pivot else view.parent i
  live : ∀ element, next.live element =
    (element == pivot || view.live element && ! absorbed element)
  members : next.members = Function.update view.members pivot gathered
  degree : ∀ element, element ∉ gathered → element ≠ pivot →
    next.degree element = view.degree element
  degree_pivot : next.weightOfAll gathered ≤ next.degree pivot
  elements : ∀ i, i ∉ gathered → next.elements i = view.elements i
  direct : ∀ i, i ∉ gathered → next.direct i = view.direct i
  mem_elements : ∀ i ∈ gathered, lapsed i = false → ∀ element,
    element ∈ next.elements i ↔ element = pivot ∨
      element ∈ view.elements i ∧ absorbed element = false
  nodup_elements : ∀ i ∈ gathered, lapsed i = false →
    (view.elements i).Nodup → pivot ∉ view.elements i →
      (next.elements i).Nodup
  mem_direct : ∀ i ∈ gathered, lapsed i = false → ∀ j, j ∈ next.direct i ↔
    j ∈ view.direct i ∧ view.weight j ≠ 0 ∧ j ≠ pivot ∧ j ∉ gathered

variable {formed : Set Nat} {view next : View} {pivot i element : Nat}
  {gathered : List Nat} {lapsed absorbed : Nat → Bool}

theorem Remains.of_insert (remains : view.Remains (insert pivot formed) i) :
    view.Remains formed i ∧ i ≠ pivot := by
  have outside := remains.2
  simp only [Set.mem_insert_iff, not_or] at outside
  exact ⟨⟨remains.1, outside.2⟩, outside.1⟩

theorem Incident.ne_pivot (incident : view.Incident formed)
    (remains : view.Remains formed pivot) (lives : view.live element = true) :
    element ≠ pivot := by
  intro same
  exact remains.2 (same ▸ incident.live_formed element lives)

theorem Incident.near_unformed (incident : view.Incident formed)
    (mutuals : view.Mutual formed) (remains : view.Remains formed pivot)
    (near : (∃ element ∈ view.elements pivot, i ∈ view.members element) ∨
      i ∈ view.direct pivot) : i ∉ formed := by
  cases near with
  | inl shared =>
      obtain ⟨element, belongs, member⟩ := shared
      have known := incident.known pivot remains element belongs
      exact incident.members_unformed element known.1 i member
  | inr neighbour =>
      exact mutuals.direct_unformed pivot remains i neighbour

theorem weightOfAll_le {nodes : List Nat}
    (le : ∀ i ∈ nodes, next.weight i ≤ view.weight i) :
    next.weightOfAll nodes ≤ view.weightOfAll nodes := by
  unfold weightOfAll
  induction nodes with
  | nil => exact Nat.le_refl _
  | cons node nodes ih =>
      simp only [List.map_cons, total]
      exact Nat.add_le_add (le node (by simp))
        (ih fun i member => le i (by simp [member]))

theorem weightOfAll_congr {nodes : List Nat}
    (same : ∀ i ∈ nodes, next.weight i = view.weight i) :
    next.weightOfAll nodes = view.weightOfAll nodes := by
  unfold weightOfAll
  rw [List.map_congr_left same]

/-- Nodes that are linked to a node without links of its own leave the forest
sound, as long as only variables stop to stand for themselves. -/
theorem Linked.link {formed' : Set Nat} {target : Nat} {moved : Nat → Bool}
    (linked : view.Linked formed)
    (parent : ∀ i, next.parent i =
      if moved i then some target else view.parent i)
    (zero : ∀ i, view.weight i = 0 → next.weight i = 0)
    (zeroed : ∀ i, view.weight i ≠ 0 → next.weight i = 0 →
      moved i = true ∧ i ∉ formed)
    (remains : ∀ i, next.Remains formed' i →
      view.Remains formed i ∧ moved i = false)
    (target_weight : next.weight target ≠ 0)
    (target_top : next.parent target = none)
    (target_formed : ∀ i, moved i = true → next.weight i ≠ 0 →
      target ∈ formed')
    (grows : formed ⊆ formed') : next.Linked formed' := by
  refine ⟨⟨?_, ?_, ?_⟩, ?_, ?_⟩
  -- A moved node is one step below the target, whatever was above it before.
  · intro node
    obtain ⟨level, found⟩ := linked.forest.grounded node
    induction found with
    | @root node top =>
        cases moves : moved node with
        | true =>
            have link := (parent node).trans (if_pos moves)
            exact ⟨1, .under link (.root target_top)⟩
        | false =>
            have same : next.parent node = view.parent node := by
              simp [parent, moves]
            exact ⟨0, .root (same.trans top)⟩
    | @under node above level link _ ih =>
        cases moves : moved node with
        | true =>
            have link := (parent node).trans (if_pos moves)
            exact ⟨1, .under link (.root target_top)⟩
        | false =>
            have same : next.parent node = view.parent node := by
              simp [parent, moves]
            obtain ⟨level', found'⟩ := ih
            exact ⟨level' + 1, .under (same.trans link) found'⟩
  · intro node above link weighs
    have weighed : view.weight node ≠ 0 := fun none => weighs (zero node none)
    rw [parent] at link
    split at link
    · obtain rfl := Option.some.inj link
      exact target_weight
    · intro none
      have held := linked.forest.held node above link weighed
      have formed := linked.next_formed node above link weighed
      exact (zeroed above held none).2 formed
  · intro node above link
    rw [parent] at link
    split at link
    · obtain rfl := Option.some.inj link
      exact .inl target_weight
    · rw [parent above]
      cases moves : moved above with
      | true => exact .inr ⟨target, rfl⟩
      | false =>
          refine (linked.forest.hosted node above link).imp_left ?_
          intro held none
          simp [(zeroed above held none).1] at moves
  · intro i left
    obtain ⟨remained, stays⟩ := remains i left
    rw [parent, stays]
    exact linked.free i remained
  · intro node above link weighs
    rw [parent] at link
    split at link
    · next moves =>
      obtain rfl := Option.some.inj link
      exact target_formed node moves weighs
    · apply grows
      exact linked.next_formed node above link fun none =>
        weighs (zero node none)

namespace Round

variable
  (round : Round formed view pivot gathered lapsed absorbed next)

include round

theorem remains (remains : next.Remains (insert pivot formed) i) :
    view.Remains formed i ∧ i ≠ pivot ∧ lapsed i = false := by
  obtain ⟨⟨weighs, unformed⟩, other⟩ := remains.of_insert
  rw [round.weight] at weighs
  cases lapses : lapsed i with
  | true => simp [lapses] at weighs
  | false =>
      rw [lapses] at weighs
      exact ⟨⟨weighs, unformed⟩, other, rfl⟩

theorem pivot_not_gathered : pivot ∉ gathered := by
  intro member
  exact ((round.mem_gathered pivot).mp member).2.1 rfl

theorem gathered_unformed (incident : view.Incident formed)
    (mutuals : view.Mutual formed) (member : i ∈ gathered) :
    i ∉ insert pivot formed := by
  obtain ⟨_, other, near⟩ := (round.mem_gathered i).mp member
  rw [Set.mem_insert_iff, not_or]
  exact ⟨other, incident.near_unformed mutuals round.pivot_remains near⟩

theorem not_absorbed (incident : view.Incident formed)
    (remains : view.Remains formed i) (other : i ≠ pivot)
    (apart : i ∉ gathered) (belongs : element ∈ view.elements i) :
    absorbed element = false := by
  rw [Bool.eq_false_iff]
  intro dies
  have known := incident.known i remains element belongs
  exact apart
    (round.absorbed_within element dies i known.2 remains.1 other)

theorem live_iff :
    next.live element = true ↔ element = pivot ∨
      element ≠ pivot ∧ view.live element = true ∧
        absorbed element = false := by
  rw [round.live]
  by_cases same : element = pivot
  · simp [same]
  · simp [same]

theorem members_of_ne (other : element ≠ pivot) :
    next.members element = view.members element := by
  rw [round.members, Function.update_of_ne other]

theorem members_pivot : next.members pivot = gathered := by
  rw [round.members, Function.update_self]

theorem incident (incident : view.Incident formed)
    (mutuals : view.Mutual formed) : next.Incident (insert pivot formed) where
  live_formed := by
    intro element lives
    cases round.live_iff.mp lives with
    | inl same => exact .inl same
    | inr old => exact .inr (incident.live_formed element old.2.1)
  members_unformed := by
    intro element lives i member
    cases round.live_iff.mp lives with
    | inl same =>
        rw [same, round.members_pivot] at member
        exact round.gathered_unformed incident mutuals member
    | inr old =>
        obtain ⟨other, lived, stays⟩ := old
        rw [round.members_of_ne other] at member
        rw [Set.mem_insert_iff, not_or]
        refine ⟨?_, incident.members_unformed element lived i member⟩
        intro same
        subst same
        have belongs := incident.listed i element round.pivot_remains lived
          member
        simp [round.absorbed_of_pivot element belongs] at stays
  nodup := by
    intro i remains
    obtain ⟨remained, other, stays⟩ := round.remains remains
    by_cases member : i ∈ gathered
    · apply round.nodup_elements i member stays (incident.nodup i remained)
      intro belongs
      have lived := (incident.known i remained pivot belongs).1
      exact round.pivot_remains.2 (incident.live_formed pivot lived)
    · rw [round.elements i member]
      exact incident.nodup i remained
  known := by
    intro i remains element belongs
    obtain ⟨remained, other, stays⟩ := round.remains remains
    by_cases member : i ∈ gathered
    · cases (round.mem_elements i member stays element).mp belongs with
      | inl same =>
          subst same
          rw [round.members_pivot]
          exact ⟨round.live_iff.mpr (.inl rfl), member⟩
      | inr old =>
          have known := incident.known i remained element old.1
          have differs := incident.ne_pivot round.pivot_remains known.1
          rw [round.members_of_ne differs]
          exact ⟨round.live_iff.mpr (.inr ⟨differs, known.1, old.2⟩), known.2⟩
    · rw [round.elements i member] at belongs
      have known := incident.known i remained element belongs
      have differs := incident.ne_pivot round.pivot_remains known.1
      have lives := round.not_absorbed incident remained other member belongs
      rw [round.members_of_ne differs]
      exact ⟨round.live_iff.mpr (.inr ⟨differs, known.1, lives⟩), known.2⟩
  listed := by
    intro i element remains lives member
    obtain ⟨remained, other, stays⟩ := round.remains remains
    cases round.live_iff.mp lives with
    | inl same =>
        subst same
        rw [round.members_pivot] at member
        exact (round.mem_elements i member stays element).mpr (.inl rfl)
    | inr old =>
        rw [round.members_of_ne old.1] at member
        have belongs := incident.listed i element remained old.2.1 member
        by_cases near : i ∈ gathered
        · exact (round.mem_elements i near stays element).mpr
            (.inr ⟨belongs, old.2.2⟩)
        · rwa [round.elements i near]

theorem mutuals (mutuals : view.Mutual formed) :
    next.Mutual (insert pivot formed) where
  direct_unformed := by
    intro i remains j neighbour
    obtain ⟨remained, other, stays⟩ := round.remains remains
    rw [Set.mem_insert_iff, not_or]
    by_cases member : i ∈ gathered
    · obtain ⟨old, _, differs, _⟩ :=
        (round.mem_direct i member stays j).mp neighbour
      exact ⟨differs, mutuals.direct_unformed i remained j old⟩
    · rw [round.direct i member] at neighbour
      refine ⟨?_, mutuals.direct_unformed i remained j neighbour⟩
      intro same
      subst same
      have back := mutuals.symm i j remained round.pivot_remains neighbour
      exact member ((round.mem_gathered i).mpr
        ⟨remained.1, other, .inr back⟩)
  symm := by
    intro i j remains remains' neighbour
    obtain ⟨remained, other, stays⟩ := round.remains remains
    obtain ⟨remained', other', stays'⟩ := round.remains remains'
    by_cases member : i ∈ gathered
    · obtain ⟨old, _, _, apart⟩ :=
        (round.mem_direct i member stays j).mp neighbour
      rw [round.direct j apart]
      exact mutuals.symm i j remained remained' old
    · rw [round.direct i member] at neighbour
      have back := mutuals.symm i j remained remained' neighbour
      by_cases member' : j ∈ gathered
      · exact (round.mem_direct j member' stays' i).mpr
          ⟨back, remained.1, other, member⟩
      · rwa [round.direct j member']

theorem weight_le (i : Nat) : next.weight i ≤ view.weight i := by
  rw [round.weight]
  split
  · exact Nat.zero_le _
  · exact Nat.le_refl _

theorem weighed (incident : view.Incident formed)
    (mutuals : view.Mutual formed) (weighed : view.Weighed) :
    next.Weighed where
  nodup := by
    intro element lives
    cases round.live_iff.mp lives with
    | inl same =>
        rw [same, round.members_pivot]
        exact round.nodup
    | inr old =>
        rw [round.members_of_ne old.1]
        exact weighed.nodup element old.2.1
  le := by
    intro element lives
    cases round.live_iff.mp lives with
    | inl same =>
        rw [same, round.members_pivot]
        exact round.degree_pivot
    | inr old =>
        have apart : element ∉ gathered := by
          intro member
          have unformed := round.gathered_unformed incident mutuals member
          exact unformed (.inr (incident.live_formed element old.2.1))
        rw [round.members_of_ne old.1, round.degree element apart old.1]
        calc
          _ ≤ view.weightOfAll (view.members element) :=
            weightOfAll_le fun i _ => round.weight_le i
          _ ≤ view.degree element := weighed.le element old.2.1

theorem lapsed_unformed (incident : view.Incident formed)
    (mutuals : view.Mutual formed) (lapses : lapsed i = true) :
    i ∉ insert pivot formed :=
  round.gathered_unformed incident mutuals (round.lapsed_gathered i lapses)

theorem not_absorbed_of_unformed (incident : view.Incident formed)
    (unformed : i ∉ formed) : absorbed i = false := by
  rw [Bool.eq_false_iff]
  intro dies
  exact unformed (incident.live_formed i (round.absorbed_live i dies))

theorem linked (incident : view.Incident formed)
    (mutuals : view.Mutual formed) (linked : view.Linked formed) :
    next.Linked (insert pivot formed) := by
  have pivot_lapsed : lapsed pivot = false := by
    rw [Bool.eq_false_iff]
    intro lapses
    exact round.pivot_not_gathered (round.lapsed_gathered pivot lapses)
  have stays {i : Nat} (unformed : i ∉ formed) : absorbed i = false :=
    round.not_absorbed_of_unformed incident unformed
  apply linked.link round.parent
  · intro i none
    simp [round.weight, none]
  · intro i weighs none
    have lapses : lapsed i = true := by
      simpa [round.weight, weighs] using none
    have unformed := round.lapsed_unformed incident mutuals lapses
    rw [Set.mem_insert_iff, not_or] at unformed
    exact ⟨by simp [lapses], unformed.2⟩
  · intro i remains
    obtain ⟨remained, _, lasts⟩ := round.remains remains
    exact ⟨remained, by simp [lasts, stays remained.2]⟩
  · simpa [round.weight, pivot_lapsed] using round.pivot_remains.1
  · rw [round.parent, pivot_lapsed, stays round.pivot_remains.2]
    exact linked.free pivot round.pivot_remains
  · intro i _ _
    exact Set.mem_insert pivot formed
  · exact Set.subset_insert pivot formed

theorem sound (sound : view.Sound formed) :
    next.Sound (insert pivot formed) where
  linked := round.linked sound.incident sound.mutuals sound.linked
  incident := round.incident sound.incident sound.mutuals
  mutuals := round.mutuals sound.mutuals
  weighed := round.weighed sound.incident sound.mutuals sound.weighed

end Round

end View

end QuasiDefinite.QuotientGraph
