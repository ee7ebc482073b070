import Mathlib.Algebra.BigOperators.Intervals
import QuasiDefinite.Compressed

namespace QuasiDefinite

theorem total_eq_sum (counts : List Nat) : total counts = counts.sum := by
  induction counts with
  | nil => rfl
  | cons count counts ih => rw [total, ih, List.sum_cons]

variable {M ι κ : Type} [AddCommMonoid M]

theorem sum_map_flatMap (items : List ι) (part : ι → List κ) (term : κ → M) :
    ((items.flatMap part).map term).sum =
      (items.map fun item => ((part item).map term).sum).sum := by
  rw [List.map_flatMap, List.flatMap, List.sum_flatten, List.map_map]
  rfl

theorem sum_map_range (size : Nat) (term : Nat → M) :
    ((List.range size).map term).sum = ∑ k ∈ Finset.range size, term k :=
  rfl

theorem sum_map_filter {items : List ι} (chosen : ι → Bool) (term : ι → M) :
    ((items.filter chosen).map term).sum =
      (items.map fun item => if chosen item then term item else 0).sum := by
  induction items with
  | nil => rfl
  | cons item rest ih =>
      cases here : chosen item with
      | true => simp [here, ih]
      | false => simp [here, ih]

theorem sum_map_eq_sum_range {indices : List Nat} {size : Nat}
    (nodup : indices.Nodup) (small : ∀ index ∈ indices, index < size)
    (term : Nat → M) :
    (indices.map term).sum =
      ∑ index ∈ Finset.range size,
        if index ∈ indices then term index else 0 := by
  rw [← List.sum_toFinset term nodup, ← Finset.sum_filter]
  apply Finset.sum_congr
  · ext index
    rw [List.mem_toFinset, Finset.mem_filter, Finset.mem_range]
    exact ⟨fun member => ⟨small index member, member⟩, And.right⟩
  · intros
    rfl

end QuasiDefinite
