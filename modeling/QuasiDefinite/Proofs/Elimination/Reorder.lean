import QuasiDefinite.Proofs.Elimination.Plan

namespace QuasiDefinite

/-- The entry that an entry becomes when index `i` is renamed to
`place[i]`. -/
def renamed (place : Array Nat) (entry : Nat × Nat) : Nat × Nat :=
  (min (place.getD entry.1 0) (place.getD entry.2 0),
    max (place.getD entry.1 0) (place.getD entry.2 0))

/-- A vector with its components in another order. -/
def Reorders {α : Type} (order : Array Nat) (vector vector' : Array α) :
    Prop :=
  vector'.size = vector.size ∧ ∀ k index : Nat, order[k]? = some index →
    vector'[k]? = vector[index]?

namespace Pattern.Relabels

variable {pattern : Pattern} {permutation : Permutation} {result : Relabelled}

theorem slot_renamed (relabels : pattern.Relabels permutation result)
    {slot : Nat} {entry : Nat × Nat}
    (found : pattern.entries[slot]? = some entry) :
    ∃ new, result.slot[slot]? = some new ∧
      result.pattern.entries[new]? =
        some (renamed permutation.place entry) := by
  obtain ⟨new, row', col', target, foundRow, foundCol, moved⟩ :=
    relabels.slot_entry slot _ _ found
  refine ⟨new, target, moved.trans ?_⟩
  simp [renamed, Array.getD_eq_getD_getElem?, foundRow, foundCol]

theorem mem_iff_renamed (relabels : pattern.Relabels permutation result)
    (wellFormed : pattern.WellFormed) {entry : Nat × Nat} :
    entry ∈ result.pattern.entries ↔
      entry ∈ pattern.entries.map (renamed permutation.place) := by
  rw [List.mem_map]
  constructor
  · intro member
    obtain ⟨new, found⟩ := List.mem_iff_getElem?.mp member
    obtain ⟨slot, row, col, row', col', _, here, foundRow, foundCol, rfl⟩ :=
      relabels.exists_origin wellFormed found
    refine ⟨(row, col), List.mem_of_getElem? here, ?_⟩
    simp [renamed, Array.getD_eq_getD_getElem?, foundRow, foundCol]
  · rintro ⟨origin, member, rfl⟩
    obtain ⟨slot, here⟩ := List.mem_iff_getElem?.mp member
    obtain ⟨new, _, found⟩ := relabels.slot_renamed here
    exact List.mem_of_getElem? found

theorem pattern_eq (relabels : pattern.Relabels permutation result)
    (wellFormed : pattern.WellFormed) :
    ofUpperEntries pattern.size
      (pattern.entries.map (renamed permutation.place)) =
        .ok result.pattern := by
  have upper : ∀ entry ∈ pattern.entries.map (renamed permutation.place),
      entry.1 ≤ entry.2 ∧ entry.2 < pattern.size := by
    intro entry member
    rw [← relabels.mem_iff_renamed wellFormed] at member
    rw [← relabels.size_eq]
    exact relabels.wellFormed.entry_le member
  obtain ⟨built, ran, size_eq, mem_iff⟩ := ofUpperEntries_runs upper
  rw [ran]
  congr 1
  refine (wellFormed_ofUpperEntries ran).ext relabels.wellFormed
    (size_eq.trans relabels.size_eq.symm) fun row col => ?_
  rw [mem_iff, relabels.mem_iff_renamed wellFormed, or_iff_left_of_imp]
  rintro ⟨rfl, inside⟩
  rw [← relabels.mem_iff_renamed wellFormed]
  exact relabels.wellFormed.diagonal_mem (relabels.size_eq ▸ inside)

end Pattern.Relabels

theorem Pattern.Relabels.of_identity {pattern : Pattern} {result : Relabelled}
    (relabels : pattern.Relabels (.identity pattern.size) result)
    (wellFormed : pattern.WellFormed) :
    result.pattern = pattern ∧ ∀ slot : Nat, slot < pattern.slotCount →
      result.slot[slot]? = some slot := by
  have still : ∀ entry ∈ pattern.entries,
      renamed (Permutation.identity pattern.size).place entry = entry := by
    rintro ⟨row, col⟩ member
    obtain ⟨le, inside⟩ := wellFormed.entry_le member
    have insideRow := Nat.lt_of_le_of_lt le inside
    simp [renamed, Permutation.identity, Array.getD_eq_getD_getElem?, inside,
      insideRow, Nat.min_eq_left le, Nat.max_eq_right le]
  have same : result.pattern = pattern := by
    refine relabels.wellFormed.ext wellFormed relabels.size_eq
      fun row col => ?_
    rw [relabels.mem_iff_renamed wellFormed, List.map_congr_left still]
    exact (List.map_id' _).symm ▸ Iff.rfl
  refine ⟨same, fun slot inside => ?_⟩
  rw [← wellFormed.length_entries] at inside
  have here := List.getElem?_eq_getElem inside
  obtain ⟨new, target, found⟩ := relabels.slot_renamed here
  rw [still _ (List.getElem_mem inside), same] at found
  have nodup := wellFormed.nodup_entries
  have insideNew := (List.getElem?_eq_some_iff.mp found).1
  rw [target, (List.getElem?_inj insideNew nodup).mp (found.trans here.symm)]

namespace Plan

variable {pattern pattern' : Pattern} {signs signs' : Array Sign}
  {plan plan' : Plan} {rule : OrderRule}

/-- The plans agree but for the order and the slots they start from. -/
structure Matches (plan plan' : Plan) : Prop where
  pattern : plan'.pattern = plan.pattern
  signs : plan'.signs = plan.signs
  parent : plan'.parent = plan.parent
  lower : plan'.lower = plan.lower
  rows : plan'.rows = plan.rows
  slots : plan'.slots = plan.slots

theorem Matches.eq (same : Matches plan plan') :
    plan' = { plan with order := plan'.order, slot := plan'.slot } := by
  obtain ⟨pattern, signs, parent, lower, rows, slots⟩ := same
  cases plan'
  congr

theorem ofOrder_of_make (made : make pattern signs rule = .ok (.ok plan)) :
    rule.permutation pattern = .ok plan.order ∧
      ofOrder pattern signs plan.order = .ok plan := by
  rw [make] at made
  split at made
  · cases made
  · split at made
    · cases made
    · next order accepted =>
      rw [Checked.bind_eq_ok_iff] at made
      obtain ⟨found, ran, made⟩ := made
      cases made
      have kept : plan.order = order := by
        simp only [ofOrder, Checked.bind_eq_ok_iff] at ran
        obtain ⟨_, _, _, _, _, _, _, _, _, _, made⟩ := ran
        cases made
        rfl
      exact ⟨kept ▸ accepted, kept ▸ ran⟩

/-- All that follows the relabelling depends on the relabelled pattern and the
moved signs alone. -/
theorem matches_of_make
    (made : make pattern signs rule = .ok (.ok plan))
    {rule' : OrderRule} (made' : make pattern' signs' rule' = .ok (.ok plan'))
    (size_eq : pattern'.size = pattern.size)
    (moved : plan'.pattern = plan.pattern) (signed : plan'.signs = plan.signs) :
    Matches plan plan' := by
  have ran := (ofOrder_of_make made).2
  have ran' := (ofOrder_of_make made').2
  generalize plan.order = order at ran
  generalize plan'.order = order' at ran'
  simp only [ofOrder, Checked.bind_eq_ok_iff] at ran ran'
  obtain ⟨result, _, parent, grows, columns, found, schedule, scheduled,
    _, _, made⟩ := ran
  obtain ⟨result', _, parent', grows', columns', found', schedule', scheduled',
    _, _, made'⟩ := ran'
  cases made
  cases made'
  dsimp only at moved
  rw [size_eq, moved, grows] at grows'
  cases grows'
  rw [size_eq, moved, found] at found'
  cases found'
  rw [size_eq, scheduled] at scheduled'
  cases scheduled'
  exact ⟨moved, signed, rfl, rfl, rfl, rfl⟩

end Plan

/-! Two plans, one that reorders a problem and one for the problem with its
indices renamed. -/

structure Reordering (plan plan' : Plan) (pattern pattern' : Pattern)
    (signs signs' : Array Sign) : Prop where
  regular : plan.Regular pattern signs
  regular' : plan'.Regular pattern' signs'
  same : plan.Matches plan'
  natural : plan'.order = .identity pattern'.size
  settled : plan'.pattern = pattern'

namespace Reordering

variable {plan plan' : Plan} {pattern pattern' : Pattern}
  {signs signs' : Array Sign}
  (reordering : Reordering plan plan' pattern pattern' signs signs')

include reordering

theorem pattern_eq : plan.pattern = pattern' :=
  reordering.same.pattern.symm.trans reordering.settled

theorem size_eq : plan'.size = plan.size :=
  congrArg Pattern.size reordering.same.pattern

theorem matrixCount_eq : plan'.matrixCount = plan.matrixCount :=
  congrArg Pattern.slotCount reordering.same.pattern

theorem order_self {k : Nat} (inside : k < plan.size) :
    plan'.order.order[k]? = some k := by
  have insideNew : k < pattern'.size := by
    rwa [← reordering.pattern_eq]
  rw [reordering.natural]
  simp [Permutation.identity, insideNew]

theorem still {slot : Nat} (inside : slot < plan.matrixCount) :
    plan'.slot[slot]? = some slot := by
  have relabels := reordering.regular'.relabels
  rw [reordering.natural] at relabels
  refine (relabels.of_identity reordering.regular'.wellFormed).2 slot ?_
  rwa [← reordering.pattern_eq]

theorem slot_lt {slot slot' : Nat} (moved : plan.slot[slot]? = some slot') :
    slot' < plan.matrixCount := by
  have count : plan.matrixCount = pattern.slotCount :=
    reordering.regular.relabels.slotCount_eq
  rw [count]
  exact reordering.regular.relabels.slot_lt reordering.regular.wellFormed moved

end Reordering

/-- The slots of a pattern follow its entries to where renaming takes them. -/
structure Plan.Follows (plan : Plan) (pattern pattern' : Pattern) : Prop where
  slot_size : plan.slot.size = pattern.slotCount
  slotCount_eq : pattern'.slotCount = pattern.slotCount
  injective : ∀ slot slot' new : Nat, plan.slot[slot]? = some new →
    plan.slot[slot']? = some new → slot = slot'
  onto : ∀ new : Nat, new < pattern'.slotCount →
    ∃ slot : Nat, plan.slot[slot]? = some new
  follows : ∀ (slot : Nat) (entry : Nat × Nat),
    pattern.entries[slot]? = some entry → ∃ new : Nat,
      plan.slot[slot]? = some new ∧
      pattern'.entries[new]? = some (renamed plan.order.place entry)
  diagonal : ∀ col, col < pattern'.size → ∃ slot,
    plan.diagonalSlot col = .ok slot ∧
    pattern'.entries[slot]? = some (col, col) ∧
    pattern'.upper.start[col + 1]? = some (slot + 1)

theorem Reordering.follows {plan plan' : Plan} {pattern pattern' : Pattern}
    {signs signs' : Array Sign}
    (reordering : Reordering plan plan' pattern pattern' signs signs') :
    plan.Follows pattern pattern' := by
  have relabels := reordering.regular.relabels
  have same := reordering.pattern_eq
  have count : plan.pattern.slotCount = pattern.slotCount :=
    relabels.slotCount_eq
  refine ⟨relabels.slot_size, same ▸ count, relabels.slot_injective, ?_, ?_,
    ?_⟩
  · intro new inside
    exact relabels.slot_onto new (count ▸ same ▸ inside)
  · intro slot entry found
    obtain ⟨new, moved, target⟩ := relabels.slot_renamed found
    exact ⟨new, moved, same ▸ target⟩
  · intro col inside
    rw [← same] at inside ⊢
    obtain ⟨_, slot, _, start, found, _⟩ :=
      relabels.wellFormed.exists_slots inside
    refine ⟨slot, ?_, found, start⟩
    rw [Plan.diagonalSlot, Checked.get_eq_ok_iff.mpr start, Checked.ok_bind]
    exact Checked.sub_eq_ok (Nat.le_add_left 1 slot)

namespace Plan

variable {pattern : Pattern} {signs signs' : Array Sign} {order : Array Nat}

theorem exists_reordering (constructed : pattern.Constructed)
    (signs_size : signs.size = pattern.size)
    (perm : order.toList.Perm (List.range pattern.size)) :
    ∃ plan pattern', make pattern signs (.supplied order) = .ok (.ok plan) ∧
      plan.order.order = order ∧ plan.order.Valid pattern.size ∧
      Pattern.ofUpperEntries pattern.size
        (pattern.entries.map (renamed plan.order.place)) = .ok pattern' ∧
      ∀ signs', Reorders order signs signs' → ∃ plan',
        make pattern' signs' .natural = .ok (.ok plan') ∧
        Reordering plan plan' pattern pattern' signs signs' := by
  obtain ⟨plan, made, regular, listed⟩ :=
    @make_runs _ _ (.supplied order) constructed signs_size perm
  have built := regular.relabels.pattern_eq regular.wellFormed
  have size_eq : plan.pattern.size = pattern.size := regular.relabels.size_eq
  refine ⟨plan, plan.pattern, made, listed, regular.valid, built,
    fun signs' reorders => ?_⟩
  have signs_size' : signs'.size = plan.pattern.size := by
    rw [reorders.1, signs_size, size_eq]
  obtain ⟨plan', made', regular', listed'⟩ := @make_runs plan.pattern signs'
    .natural (.upper built) signs_size' (by simp [OrderRule.listing])
  have natural : plan'.order = .identity plan.pattern.size :=
    (Except.ok.inj (ofOrder_of_make made').1).symm
  have relabels' := regular'.relabels
  rw [natural] at relabels'
  have settled := (relabels'.of_identity regular'.wellFormed).1
  have signed : plan'.signs = plan.signs := by
    refine Checked.ext_of_size (regular'.signs_size.trans size_eq)
      regular.signs_size fun k inside => ?_
    obtain ⟨index, _, found, _⟩ := regular.valid.exists_order inside
    have found' : plan'.order.order[k]? = some k := by
      rw [natural]
      simp [Permutation.identity, size_eq, inside]
    rw [regular'.signs k k found', regular.signs k index found,
      reorders.2 k index (by rwa [listed] at found)]
  exact ⟨plan', made', regular, regular',
    matches_of_make made made' size_eq settled signed, natural, settled⟩

end Plan

end QuasiDefinite
