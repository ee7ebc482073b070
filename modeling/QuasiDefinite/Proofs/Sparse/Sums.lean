import Mathlib.Algebra.BigOperators.Ring.Finset
import Mathlib.Data.Fintype.BigOperators
import Mathlib.Tactic.Ring
import QuasiDefinite.Proofs.Sparse.Triplets
import QuasiDefinite.Proofs.Sums

namespace QuasiDefinite

variable {α : Type} [CommSemiring α]

namespace Sparse

variable {matrix : Sparse α} {storage : Storage} {rows cols : Nat}
  {triplets : List (Nat × Nat × α)}

theorem sumAt_getD (triplets : List (Nat × Nat × α)) (row col : Nat) :
    (sumAt triplets row col).getD 0 =
      (triplets.map fun (row', col', value) =>
        if row = row' ∧ col = col' then value else 0).sum := by
  induction triplets using List.reverseRecOn with
  | nil => rfl
  | append_singleton triplets last ih =>
      obtain ⟨row', col', value⟩ := last
      rw [sumAt_append, List.map_append, List.sum_append, List.map_singleton,
        List.sum_singleton, ← ih]
      dsimp only
      by_cases same : row = row' ∧ col = col'
      · obtain ⟨rfl, rfl⟩ := same
        rw [if_pos ⟨rfl, rfl⟩, if_pos ⟨rfl, rfl⟩, Option.getD_some]
        cases sumAt triplets row col with
        | none => exact (zero_add value).symm
        | some total => rfl
      · rw [if_neg same, if_neg same, add_zero]

theorem MadeOf.entry_eq (made : matrix.MadeOf storage rows cols triplets)
    (row col : Nat) : matrix.entry row col =
      (triplets.map fun (row', col', value) =>
        if row = row' ∧ col = col' then value else 0).sum := by
  rw [made.ascending.entry_eq, made.stored, sumAt_getD]

theorem sum_single {row col : Nat} (insideRow : row < rows)
    (insideCol : col < cols) (value : α) (weight : Nat → Nat → α) :
    ∑ i : Fin rows, ∑ k : Fin cols,
      (if i.val = row ∧ k.val = col then value else 0) * weight i k =
      value * weight row col := by
  rw [Fintype.sum_eq_single ⟨row, insideRow⟩,
    Fintype.sum_eq_single ⟨col, insideCol⟩, if_pos ⟨rfl, rfl⟩]
  · intro k differs
    rw [if_neg fun same => differs (Fin.ext same.2), zero_mul]
  · intro i differs
    refine Finset.sum_eq_zero fun k _ => ?_
    rw [if_neg fun same => differs (Fin.ext same.1), zero_mul]

theorem MadeOf.sum_entry (made : matrix.MadeOf storage rows cols triplets)
    (inside : ∀ row col value, (row, col, value) ∈ triplets →
      row < rows ∧ col < cols) (weight : Nat → Nat → α) :
    ∑ i : Fin rows, ∑ k : Fin cols, matrix.entry i k * weight i k =
      (triplets.map fun (row, col, value) => value * weight row col).sum := by
  simp only [made.entry_eq]
  clear made
  induction triplets with
  | nil => simp
  | cons first rest ih =>
      obtain ⟨row, col, value⟩ := first
      obtain ⟨insideRow, insideCol⟩ :=
        inside row col value (List.mem_cons_self ..)
      have later := ih fun row col value member =>
        inside row col value (List.mem_cons_of_mem _ member)
      simp only [List.map_cons, List.sum_cons, add_mul,
        Finset.sum_add_distrib]
      rw [later, sum_single insideRow insideCol]

end Sparse

theorem exists_extension {size : Nat} (x : Fin size → α) :
    ∃ whole : Nat → α, (x = fun i : Fin size => whole i) ∧
      ∀ i, size ≤ i → whole i = 0 := by
  let whole (i : Nat) : α := if inside : i < size then x ⟨i, inside⟩ else 0
  refine ⟨whole, funext fun i => ?_, fun i after => ?_⟩
  · simp only [whole, dif_pos i.isLt]
  · simp only [whole, dif_neg (Nat.not_lt.mpr after)]

theorem sum_mirrored {size : Nat} {entry : Nat → Nat → α}
    (upper : ∀ i k, k < i → entry i k = 0) (x : Nat → α) :
    ∑ i : Fin size, ∑ k : Fin size,
      entry (min i.val k.val) (max i.val k.val) * (x i * x k) =
    ∑ i : Fin size, ∑ k : Fin size,
      entry i k * ((if i.val = k.val then 1 else 2) * (x i * x k)) := by
  have split (i k : Fin size) :
      entry (min i.val k.val) (max i.val k.val) * (x i * x k) =
        entry i k * (x i * x k) +
          if i.val = k.val then 0 else entry k i * (x k * x i) := by
    rcases lt_trichotomy i.val k.val with less | same | greater
    · rw [min_eq_left less.le, max_eq_right less.le, if_neg less.ne,
        upper _ _ less, zero_mul, add_zero]
    · rw [same, min_self, max_self, if_pos rfl, add_zero]
    · rw [min_eq_right greater.le, max_eq_left greater.le, if_neg greater.ne',
        upper _ _ greater, zero_mul, zero_add, mul_comm (x i)]
  simp only [split, Finset.sum_add_distrib]
  rw [Finset.sum_comm (f := fun i k : Fin size =>
    if i.val = k.val then 0 else entry k i * (x k * x i)),
    ← Finset.sum_add_distrib]
  refine Finset.sum_congr rfl fun i _ => ?_
  rw [← Finset.sum_add_distrib]
  refine Finset.sum_congr rfl fun k _ => ?_
  by_cases same : i.val = k.val
  · rw [if_pos same, if_pos same.symm, add_zero, one_mul]
  · rw [if_neg same, if_neg (Ne.symm same)]
    ring

end QuasiDefinite
