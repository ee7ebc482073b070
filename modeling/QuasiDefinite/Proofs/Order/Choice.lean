import QuasiDefinite.Proofs.Order.Bijection
import QuasiDefinite.Proofs.Order.MinimumDegree

namespace QuasiDefinite.OrderRule

variable {pattern : Pattern} {rule : OrderRule} {permutation : Permutation}
  {routine : OrderRoutine} {order : Array Nat} {flaw : Flaw}

/-- Why a list is refused as an order. -/
inductive Refuses (size : Nat) (order : Array Nat) : Flaw → Prop where
  | length (differs : order.size ≠ size) :
      Refuses size order (.length order.size size)
  | notPermutation {flaw : Permutation.Flaw} (same : order.size = size)
      (flawed : Permutation.Flawed order flaw) :
      Refuses size order (.notPermutation flaw)

theorem mapError_eq_error_iff {α ε ε' : Type} {run : Except ε α}
    {look : ε → ε'} {error : ε'} :
    run.mapError look = .error error ↔
      ∃ inner, run = .error inner ∧ look inner = error := by
  cases run with
  | error _ => simp [Except.mapError]
  | ok _ => simp [Except.mapError]

theorem permutation_eq_supplied
    (replied : routine.reply pattern = .ok order) :
    (computed routine).permutation pattern =
      (supplied order).permutation pattern := by
  rw [permutation_of_reply replied, permutation_supplied,
    if_pos (OrderRoutine.size_of_reply replied)]

theorem natural_eq_ok_iff : natural.permutation pattern = .ok permutation ↔
    permutation.order = .range pattern.size ∧
      permutation.Inverts pattern.size := by
  have valid := Permutation.identity_valid pattern.size
  constructor
  · intro accepted
    cases accepted
    exact ⟨rfl, valid.inverts⟩
  · intro ⟨same, inverts⟩
    rw [valid.unique inverts.valid same]
    rfl

theorem supplied_eq_ok_iff :
    (supplied order).permutation pattern = .ok permutation ↔
      permutation.order = order ∧ permutation.Inverts pattern.size := by
  rw [permutation_supplied]
  split
  · next same =>
    rw [← same]
    exact mapError_eq_ok_iff.trans Permutation.ofOrder_eq_ok_iff
  · next differs =>
    apply iff_of_false nofun
    intro ⟨same, inverts⟩
    have size : permutation.order.size = order.size :=
      congrArg Array.size same
    exact differs (size.symm.trans inverts.order_size)

theorem permutation_eq_ok_iff : rule.permutation pattern = .ok permutation ↔
    permutation.order = rule.listing pattern ∧
      permutation.Inverts pattern.size := by
  cases rule with
  | natural => exact natural_eq_ok_iff
  | computed routine =>
      rw [listing]
      cases replied : routine.reply pattern with
      | error reason =>
          rw [permutation_of_failure replied]
          exact natural_eq_ok_iff
      | ok order =>
          rw [permutation_eq_supplied replied]
          exact supplied_eq_ok_iff
  | supplied order => exact supplied_eq_ok_iff

theorem supplied_eq_error_iff :
    (supplied order).permutation pattern = .error flaw ↔
      Refuses pattern.size order flaw := by
  rw [permutation_supplied]
  split
  · next same =>
    rw [mapError_eq_error_iff]
    constructor
    · intro ⟨inner, refused, wrapped⟩
      subst wrapped
      exact .notPermutation same (Permutation.ofOrder_eq_error_iff.mp refused)
    · intro refuses
      cases refuses with
      | length differs => exact absurd same differs
      | @notPermutation inner _ flawed =>
          exact ⟨inner, Permutation.ofOrder_eq_error_iff.mpr flawed, rfl⟩
  · next differs =>
    rw [Except.error.injEq]
    constructor
    · intro refused
      subst refused
      exact .length differs
    · intro refuses
      cases refuses with
      | length => rfl
      | notPermutation same _ => exact absurd same differs

theorem supplied_accepted_iff :
    (∃ permutation, (supplied order).permutation pattern = .ok permutation) ↔
      order.size = pattern.size ∧ Permutation.Bijects order := by
  rw [permutation_supplied, ← Permutation.accepted_iff_bijects]
  split
  · next same => simp [same, mapError_eq_ok_iff]
  · next differs => simp [differs]

theorem computed_accepted_iff (replied : routine.reply pattern = .ok order) :
    (∃ permutation, (computed routine).permutation pattern =
      .ok permutation) ↔ Permutation.Bijects order := by
  rw [permutation_eq_supplied replied, supplied_accepted_iff]
  exact and_iff_right (OrderRoutine.size_of_reply replied)

theorem computed_eq_error_iff (replied : routine.reply pattern = .ok order) :
    (computed routine).permutation pattern = .error flaw ↔
      Refuses pattern.size order flaw := by
  rw [permutation_eq_supplied replied]
  exact supplied_eq_error_iff

theorem fallback_eq_some_iff {reason : String} :
    (computed routine).fallback pattern = some reason ↔
      routine.reply pattern = .error reason := by
  rw [fallback]
  cases routine.reply pattern with
  | error _ => simp
  | ok _ => simp

/-- Lists are accepted exactly if they are bijections, and then they are kept
with their inverse, in which no index is left unmarked. So is the order that a
rule chooses, which has the size of the pattern. A list that was supplied, or
that a routine replied with, is refused unless it is such a list; only where a
routine replies with none does the natural order stand in for it. -/
theorem permutation_inverts (order : Array Nat) (pattern : Pattern)
    (routine : OrderRoutine) :
    ((∃ permutation, Permutation.ofOrder order = .ok permutation) ↔
      Permutation.Bijects order) ∧
    (∀ permutation, Permutation.ofOrder order = .ok permutation ↔
      permutation.order = order ∧ permutation.Inverts order.size) ∧
    (∀ flaw, Permutation.ofOrder order = .error flaw ↔
      Permutation.Flawed order flaw) ∧
    (∀ (rule : OrderRule) (permutation : Permutation),
      rule.permutation pattern = .ok permutation ↔
        permutation.order = rule.listing pattern ∧
          permutation.Inverts pattern.size) ∧
    (∃ permutation, natural.permutation pattern = .ok permutation) ∧
    (∀ listed, routine.reply pattern = .ok listed →
      ((∃ permutation, (computed routine).permutation pattern =
        .ok permutation) ↔ Permutation.Bijects listed) ∧
      ∀ flaw, (computed routine).permutation pattern = .error flaw ↔
        Refuses pattern.size listed flaw) ∧
    (∀ reason, routine.reply pattern = .error reason →
      (computed routine).permutation pattern =
        .ok (.identity pattern.size)) ∧
    (∀ reason, (computed routine).fallback pattern = some reason ↔
      routine.reply pattern = .error reason) ∧
    ((∃ permutation, (supplied order).permutation pattern =
      .ok permutation) ↔
        order.size = pattern.size ∧ Permutation.Bijects order) ∧
    (∀ flaw, (supplied order).permutation pattern = .error flaw ↔
      Refuses pattern.size order flaw) := by
  refine ⟨Permutation.accepted_iff_bijects, fun _ =>
    Permutation.ofOrder_eq_ok_iff, fun _ => Permutation.ofOrder_eq_error_iff,
    fun _ _ => permutation_eq_ok_iff, ⟨_, rfl⟩, ?replied, ?failed,
    fun _ => fallback_eq_some_iff, supplied_accepted_iff,
    fun _ => supplied_eq_error_iff⟩
  case replied =>
    intro listed replied
    exact ⟨computed_accepted_iff replied, fun _ =>
      computed_eq_error_iff replied⟩
  case failed =>
    intro reason failed
    exact permutation_of_failure failed

/-- The only index of a pattern is listed, and three are supplied that are one
too many. -/
theorem permutation_inverts_single :
    (∃ permutation, OrderRule.permutation ⟨1, ⟨#[0, 1], #[0]⟩⟩
      (computed fun pattern => .ok (.range pattern.size)) =
        .ok permutation) ∧
    (supplied #[2, 0, 1]).permutation ⟨1, ⟨#[0, 1], #[0]⟩⟩ =
      .error (.length 3 1) := by
  obtain ⟨_, _, _, _, _, replied, _, _, _, refused⟩ :=
    permutation_inverts #[2, 0, 1] ⟨1, ⟨#[0, 1], #[0]⟩⟩
      fun pattern => .ok (.range pattern.size)
  have bijects : Permutation.Bijects #[0] :=
    Permutation.accepted_iff_bijects.mp ⟨⟨#[0], #[0]⟩, by decide⟩
  exact ⟨(replied #[0] (by decide)).1.mpr bijects,
    (refused (.length 3 1)).mpr (.length (by decide))⟩

example : (supplied #[2, 0, 1]).permutation ⟨3, ⟨#[0, 1, 2, 3], #[0, 1, 2]⟩⟩ =
    .ok ⟨#[2, 0, 1], #[1, 2, 0]⟩ := by
  decide

/-! The order by minimum degree. -/

theorem size_minimumDegree :
    (QuasiDefinite.minimumDegree pattern).size = pattern.size := by
  have length := (minimumDegree_perm pattern).length_eq
  rwa [Array.length_toList, List.length_range] at length

theorem minimumDegree_bijects :
    Permutation.Bijects (QuasiDefinite.minimumDegree pattern) := by
  rw [Permutation.bijects_iff_perm, size_minimumDegree]
  exact minimumDegree_perm pattern

theorem listing_minimumDegree :
    minimumDegree.listing pattern = QuasiDefinite.minimumDegree pattern := by
  have size := @size_minimumDegree pattern
  rw [minimumDegree, listing, OrderRoutine.reply]
  split
  · next none => exact (Array.eq_empty_of_size_eq_zero (size.trans none)).symm
  · rw [dif_pos size]
    rfl

/-- The order by minimum degree is always taken. -/
theorem minimumDegree_accepted :
    ∃ permutation, minimumDegree.permutation pattern = .ok permutation ∧
      permutation.order = QuasiDefinite.minimumDegree pattern ∧
      permutation.Inverts pattern.size := by
  have accepted := Permutation.accepted_iff_bijects.mpr
    (@minimumDegree_bijects pattern)
  obtain ⟨permutation, accepted⟩ := accepted
  have kept := Permutation.ofOrder_eq_ok_iff.mp accepted
  rw [size_minimumDegree, ← listing_minimumDegree] at kept
  refine ⟨permutation, permutation_eq_ok_iff.mpr kept, ?_, kept.2⟩
  rw [← listing_minimumDegree]
  exact kept.1

end QuasiDefinite.OrderRule
