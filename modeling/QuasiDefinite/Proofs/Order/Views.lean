import QuasiDefinite.Proofs.Order.Round

namespace QuasiDefinite

theorem getD_replicate {α : Type} {index : Nat} (size : Nat) (value : α) :
    (Array.replicate size value).getD index value = value := by
  rw [Array.getD_eq_getD_getElem?, Array.getElem?_replicate]
  split
  · rfl
  · rfl

theorem getD_setIfInBounds {α : Type} {values : Array α} {index : Nat}
    (inside : index < values.size) (value fallback : α) :
    ((values.setIfInBounds index value).getD · fallback) =
      Function.update (values.getD · fallback) index value := by
  funext other
  rw [Function.update_apply]
  simp only [Array.getD_eq_getD_getElem?]
  by_cases same : index = other
  · subst same
    simp [inside]
  · simp [Array.getElem?_setIfInBounds_ne same, Ne.symm same]

theorem getD_modify {α : Type} {values : Array α} {index : Nat}
    (inside : index < values.size) (change : α → α) (fallback : α) :
    ((values.modify index change).getD · fallback) =
      Function.update (values.getD · fallback) index
        (change (values.getD index fallback)) := by
  funext other
  rw [Function.update_apply]
  simp only [Array.getD_eq_getD_getElem?, Array.getElem?_modify]
  by_cases same : index = other
  · subst same
    simp [inside]
  · simp [same, Ne.symm same]

namespace QuotientGraph

structure Sized (graph : QuotientGraph) : Prop where
  weight : graph.weight.size = graph.size
  direct : graph.direct.size = graph.size
  elements : graph.elements.size = graph.size
  members : graph.members.size = graph.size
  degree : graph.degree.size = graph.size
  live : graph.live.size = graph.size
  parent : graph.parent.size = graph.size

def membersOf (graph : QuotientGraph) (element : Nat) : List Nat :=
  graph.members.getD element []

def view (graph : QuotientGraph) : View where
  weight := graph.weightOf
  direct := graph.directOf
  elements := graph.elementsOf
  members := graph.membersOf
  degree := graph.degreeOf
  live := graph.isLive
  parent := graph.parentOf

variable {graph : QuotientGraph} {i element : Nat}

theorem Sized.lt_of_weightOf (sized : graph.Sized)
    (weighs : graph.weightOf i ≠ 0) : i < graph.size := by
  apply lt_of_represents sized.weight
  exact represents_iff.mpr weighs

theorem Sized.lt_of_isLive (sized : graph.Sized)
    (lives : graph.isLive element = true) : element < graph.size := by
  apply Nat.lt_of_not_le
  intro outside
  simp [isLive, sized.live, outside] at lives

end QuotientGraph

end QuasiDefinite
