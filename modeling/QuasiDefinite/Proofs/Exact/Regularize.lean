import Mathlib.Order.Bounds.Basic
import QuasiDefinite.Proofs.Exact.Field
import QuasiDefinite.Factor.Summary
import QuasiDefinite.Proofs.Checked

namespace QuasiDefinite

variable {K : Type} [ExactField K] {settings : Settings K}

theorem Settings.validate_eq_ok_iff :
    settings.validate = .ok () ↔ 0 ≤ settings.staticReg ∧
      0 ≤ settings.dynamicEps ∧ 0 < settings.dynamicDelta ∧
      0 < settings.warnThreshold ∧ 0 ≤ settings.refineTolerance := by
  rw [validate]
  by_cases staticReg : settings.staticReg < 0
  · simp [staticReg, not_le.mpr staticReg]
  by_cases dynamicEps : settings.dynamicEps < 0
  · simp [staticReg, dynamicEps, not_le.mpr dynamicEps]
  by_cases dynamicDelta : settings.dynamicDelta ≤ 0
  · simp [staticReg, dynamicEps, dynamicDelta, not_lt.mpr dynamicDelta]
  by_cases warnThreshold : settings.warnThreshold ≤ 0
  · simp [staticReg, dynamicEps, dynamicDelta, warnThreshold,
      not_lt.mpr warnThreshold]
  by_cases refineTolerance : settings.refineTolerance < 0
  · simp [staticReg, dynamicEps, dynamicDelta, warnThreshold, refineTolerance,
      not_le.mpr refineTolerance]
  simp [staticReg, dynamicEps, dynamicDelta, warnThreshold, refineTolerance,
    not_lt.mp staticReg, not_lt.mp dynamicEps, not_le.mp dynamicDelta,
    not_le.mp warnThreshold, not_lt.mp refineTolerance]

namespace Pivot

variable {sign : Sign} {raw : K}

theorem regularize_of_le (small : sign.value * raw ≤ settings.dynamicEps) :
    regularize settings sign raw =
      ⟨raw, sign.value * max |raw| settings.dynamicDelta, true⟩ := by
  simp [regularize, small]

theorem regularize_of_lt (clear : settings.dynamicEps < sign.value * raw) :
    regularize settings sign raw = ⟨raw, raw, false⟩ := by
  simp [regularize, not_le.mpr clear]

@[simp] theorem raw_regularize :
    (regularize settings sign raw).raw = raw := by
  rw [regularize]
  split <;> rfl

theorem lifted_regularize : (regularize settings sign raw).lifted =
    decide (sign.value * raw ≤ settings.dynamicEps) := by
  by_cases small : sign.value * raw ≤ settings.dynamicEps
  · rw [regularize_of_le small]
    simp [small]
  · rw [regularize_of_lt (not_le.mp small)]
    simp [small]

theorem value_mul_kept_pos (validated : settings.validate = .ok ()) :
    0 < sign.value * (regularize settings sign raw).kept := by
  obtain ⟨_, eps, delta, _⟩ := Settings.validate_eq_ok_iff.mp validated
  by_cases small : sign.value * raw ≤ settings.dynamicEps
  · rw [regularize_of_le small]
    dsimp only
    rw [← mul_assoc, Sign.value_mul_self, one_mul]
    exact lt_max_of_lt_right delta
  · rw [regularize_of_lt (not_le.mp small)]
    exact lt_of_le_of_lt eps (not_le.mp small)

theorem kept_ne_zero (validated : settings.validate = .ok ()) :
    (regularize settings sign raw).kept ≠ 0 := by
  intro zero
  have := @value_mul_kept_pos K _ settings sign raw validated
  rw [zero, mul_zero] at this
  exact lt_irrefl 0 this

end Pivot

/-! What a summary reports. -/

namespace Summary

variable {pivots : List (Pivot K)}

theorem totalMove_eq
    (kept : ∀ pivot ∈ pivots, pivot.lifted = false → pivot.kept = pivot.raw) :
    totalMove pivots =
      (pivots.map fun pivot => |pivot.kept - pivot.raw|).sum := by
  suffices general : ∀ start : K, pivots.foldl
      (fun total pivot =>
        if pivot.lifted then total + Scalar.abs (pivot.kept - pivot.raw)
        else total) start =
      start + (pivots.map fun pivot => |pivot.kept - pivot.raw|).sum from
    (general 0).trans (zero_add _)
  intro start
  induction pivots generalizing start with
  | nil => simp
  | cons pivot rest ih =>
      have ih := ih fun other member =>
        kept other (List.mem_cons_of_mem _ member)
      rw [List.foldl_cons, ih, List.map_cons, List.sum_cons, ← add_assoc]
      congr 1
      cases lifted : pivot.lifted with
      | true => rfl
      | false =>
          have same := kept pivot (List.mem_cons_self ..) lifted
          simp [same]

def magnitudes (pivots : List (Pivot K)) : List K :=
  pivots.map fun pivot => |pivot.kept|

theorem greatestMagnitude_eq :
    greatestMagnitude pivots = (magnitudes pivots).foldl max 0 := by
  rw [magnitudes, List.foldl_map, greatestMagnitude]
  simp only [Scalar.larger_exact, Scalar.abs_exact]

theorem isGreatest_greatestMagnitude (nonempty : pivots ≠ []) :
    IsGreatest {value | value ∈ magnitudes pivots}
      (greatestMagnitude pivots) := by
  obtain ⟨member, upper⟩ := isGreatest_foldl_max 0 (magnitudes pivots)
  rw [← greatestMagnitude_eq] at member upper
  have upper : greatestMagnitude pivots ∈
      upperBounds {value | value ∈ magnitudes pivots} :=
    fun value inside => upper (List.mem_cons_of_mem _ inside)
  refine ⟨?_, upper⟩
  rcases List.mem_cons.mp member with zero | inside
  · -- No magnitude is negative, so a maximum of zero is attained too.
    obtain ⟨pivot, inside⟩ := List.exists_mem_of_ne_nil _ nonempty
    have attained : |pivot.kept| ∈ magnitudes pivots :=
      List.mem_map.mpr ⟨pivot, inside, rfl⟩
    have le := upper attained
    rw [zero] at le ⊢
    rwa [Set.mem_ofPred_eq, ← le_antisymm le (abs_nonneg _)]
  · exact inside

theorem isLeast_leastMagnitude (nonempty : pivots ≠ []) :
    IsLeast {value | value ∈ magnitudes pivots} (leastMagnitude pivots) := by
  cases pivots with
  | nil => exact absurd rfl nonempty
  | cons pivot rest =>
      have least : leastMagnitude (pivot :: rest) =
          (magnitudes rest).foldl min |pivot.kept| := by
        rw [leastMagnitude, if_neg (by simp), List.map_cons,
          Scalar.least?_cons]
        rfl
      rw [least]
      exact isLeast_foldl_min |pivot.kept| (magnitudes rest)

end Summary

end QuasiDefinite
