import QuasiDefinite.Pattern.Values
import QuasiDefinite.Proofs.Pattern.Canonical
import QuasiDefinite.Proofs.Sparse.Triplets

namespace QuasiDefinite.Pattern

variable {α : Type} {pattern : Pattern} {values : Array α} {row col slot : Nat}
  {value : α} {matrix : Sparse α}

/-- The upper triangle with the given values. -/
def upperTriplets (pattern : Pattern) (values : Array α) :
    List (Nat × Nat × α) :=
  (pattern.entries.zip values.toList).map fun ((row, col), value) =>
    (row, col, value)

/-- The full matrix: the upper triangle and the mirror image of what lies above
the diagonal. -/
def fullTriplets (pattern : Pattern) (values : Array α) :
    List (Nat × Nat × α) :=
  pattern.upperTriplets values ++
    ((pattern.upperTriplets values).filter
      fun (row, col, _) => row < col).map
      fun (row, col, value) => (col, row, value)

theorem mem_upperTriplets : (row, col, value) ∈ pattern.upperTriplets values ↔
    ∃ slot : Nat, pattern.entries[slot]? = some (row, col) ∧
      values[slot]? = some value := by
  rw [upperTriplets, List.mem_map]
  constructor
  · rintro ⟨⟨⟨_, _⟩, _⟩, member, same⟩
    cases same
    obtain ⟨slot, here⟩ := List.mem_iff_getElem?.mp member
    obtain ⟨found, held⟩ := List.getElem?_zip_eq_some.mp here
    exact ⟨slot, found, Array.getElem?_toList.symm.trans held⟩
  · rintro ⟨slot, found, held⟩
    refine ⟨((row, col), value), ?_, rfl⟩
    exact List.mem_of_getElem? (List.getElem?_zip_eq_some.mpr
      ⟨found, Array.getElem?_toList.trans held⟩)

theorem mem_fullTriplets : (row, col, value) ∈ pattern.fullTriplets values ↔
    (row, col, value) ∈ pattern.upperTriplets values ∨
      col < row ∧ (col, row, value) ∈ pattern.upperTriplets values := by
  rw [fullTriplets, List.mem_append, List.mem_map]
  refine or_congr_right ⟨?_, ?_⟩
  · rintro ⟨⟨_, _, _⟩, member, same⟩
    cases same
    obtain ⟨member, below⟩ := List.mem_filter.mp member
    exact ⟨of_decide_eq_true below, member⟩
  · rintro ⟨below, member⟩
    exact ⟨(col, row, value),
      List.mem_filter.mpr ⟨member, decide_eq_true below⟩, rfl⟩

namespace WellFormed

theorem map_upperTriplets (wellFormed : pattern.WellFormed)
    (size_values : values.size = pattern.slotCount) :
    (pattern.upperTriplets values).map (fun (row, col, _) => (row, col)) =
      pattern.entries := by
  rw [upperTriplets, List.map_map]
  refine List.map_fst_zip (Nat.le_of_eq ?_)
  rw [wellFormed.length_entries, Array.length_toList, size_values]

theorem inside_upperTriplets (wellFormed : pattern.WellFormed)
    (member : (row, col, value) ∈ pattern.upperTriplets values) :
    row ≤ col ∧ col < pattern.size := by
  obtain ⟨slot, found, _⟩ := mem_upperTriplets.mp member
  exact wellFormed.entry_le (List.mem_of_getElem? found)

theorem inside_fullTriplets (wellFormed : pattern.WellFormed)
    (member : (row, col, value) ∈ pattern.fullTriplets values) :
    row < pattern.size ∧ col < pattern.size := by
  rcases mem_fullTriplets.mp member with upper | ⟨_, lower⟩
  · have := wellFormed.inside_upperTriplets upper
    omega
  · have := wellFormed.inside_upperTriplets lower
    omega

theorem nodup_fullTriplets (wellFormed : pattern.WellFormed)
    (size_values : values.size = pattern.slotCount) :
    ((pattern.fullTriplets values).map
      fun (row, col, _) => (row, col)).Nodup := by
  have upper := wellFormed.nodup_entries
  rw [← wellFormed.map_upperTriplets size_values] at upper
  rw [fullTriplets, List.map_append, List.nodup_append]
  refine ⟨upper, ?_, ?_⟩
  · have above := upper.sublist
      ((List.filter_sublist (p := fun (row, col, _) => row < col)).map _)
    have swapped := above.map Prod.swap_injective
    rw [List.map_map] at swapped ⊢
    exact swapped
  · rintro ⟨row, col⟩ above _ below rfl
    obtain ⟨⟨_, _, _⟩, member, same⟩ := List.mem_map.mp above
    cases same
    obtain ⟨_, moved, same⟩ := List.mem_map.mp below
    obtain ⟨⟨_, _, _⟩, kept, rfl⟩ := List.mem_map.mp moved
    cases same
    have strict := of_decide_eq_true (List.mem_filter.mp kept).2
    have := (wellFormed.inside_upperTriplets member).1
    omega

end WellFormed

/-! Matrices that carry values. -/

/-- The matrix is an upper triangle or full, and on and above the diagonal it
has the entries of the pattern, with the given values. -/
structure Carries (pattern : Pattern) (values : Array α) (matrix : Sparse α) :
    Prop where
  rows_eq : matrix.rows = pattern.size
  cols_eq : matrix.cols = pattern.size
  nodup : matrix.entries.Nodup
  triangle : IsUpper matrix.coordinates ∨ Mirrored matrix.coordinates
  mem_iff : ∀ row col value, row ≤ col → ((row, col, value) ∈ matrix.entries ↔
    (row, col, value) ∈ pattern.upperTriplets values)

theorem mem_coordinates_iff : (row, col) ∈ matrix.coordinates ↔
    ∃ value, (row, col, value) ∈ matrix.entries := by
  rw [Sparse.coordinates, List.mem_map]
  constructor
  · rintro ⟨⟨_, _, value⟩, member, same⟩
    cases same
    exact ⟨value, member⟩
  · rintro ⟨value, member⟩
    exact ⟨(row, col, value), member, rfl⟩

/-- The matrix stores the upper triangle with the given values, or the full
matrix, and nothing else. -/
structure Renders (pattern : Pattern) (values : Array α) (matrix : Sparse α) :
    Prop where
  rows_eq : matrix.rows = pattern.size
  cols_eq : matrix.cols = pattern.size
  entries : matrix.entries.Perm (pattern.upperTriplets values) ∨
    matrix.entries.Perm (pattern.fullTriplets values)

namespace Renders

theorem nodup (renders : pattern.Renders values matrix)
    (wellFormed : pattern.WellFormed)
    (size_values : values.size = pattern.slotCount) :
    matrix.entries.Nodup := by
  cases renders.entries with
  | inl perm =>
      have nodup := wellFormed.nodup_entries
      rw [← wellFormed.map_upperTriplets size_values] at nodup
      exact perm.nodup_iff.mpr (.of_map _ nodup)
  | inr perm =>
      exact perm.nodup_iff.mpr
        (.of_map _ (wellFormed.nodup_fullTriplets size_values))

theorem triangle (renders : pattern.Renders values matrix)
    (wellFormed : pattern.WellFormed) :
    IsUpper matrix.coordinates ∨ Mirrored matrix.coordinates := by
  cases renders.entries with
  | inl perm =>
      apply Or.inl
      intro row col member
      obtain ⟨value, member⟩ := mem_coordinates_iff.mp member
      exact (wellFormed.inside_upperTriplets (perm.mem_iff.mp member)).1
  | inr perm =>
      apply Or.inr
      intro row col member
      obtain ⟨value, member⟩ := mem_coordinates_iff.mp member
      refine mem_coordinates_iff.mpr ⟨value, perm.mem_iff.mpr ?_⟩
      rw [perm.mem_iff, mem_fullTriplets] at member
      rcases member with upper | ⟨_, lower⟩
      · rcases Nat.lt_or_eq_of_le (wellFormed.inside_upperTriplets upper).1
          with below | rfl
        · exact mem_fullTriplets.mpr (.inr ⟨below, upper⟩)
        · exact mem_fullTriplets.mpr (.inl upper)
      · exact mem_fullTriplets.mpr (.inl lower)

theorem carries (renders : pattern.Renders values matrix)
    (wellFormed : pattern.WellFormed)
    (size_values : values.size = pattern.slotCount) :
    pattern.Carries values matrix where
  rows_eq := renders.rows_eq
  cols_eq := renders.cols_eq
  nodup := renders.nodup wellFormed size_values
  triangle := renders.triangle wellFormed
  mem_iff row col value upper := by
    cases renders.entries with
    | inl perm => exact perm.mem_iff
    | inr perm =>
        rw [perm.mem_iff, mem_fullTriplets]
        exact or_iff_left fun lower => Nat.not_lt.mpr upper lower.1

end Renders

namespace Carries

theorem mem_entries_iff (carries : pattern.Carries values matrix)
    (size_values : values.size = pattern.slotCount)
    (wellFormed : pattern.WellFormed) (upper : row ≤ col) :
    (row, col) ∈ matrix.coordinates ↔ (row, col) ∈ pattern.entries := by
  rw [mem_coordinates_iff, ← wellFormed.map_upperTriplets size_values,
    List.mem_map]
  constructor
  · rintro ⟨value, member⟩
    exact ⟨_, (carries.mem_iff row col value upper).mp member, rfl⟩
  · rintro ⟨⟨_, _, value⟩, member, same⟩
    cases same
    exact ⟨value, (carries.mem_iff row col value upper).mpr member⟩

theorem ofMatrix_eq (carries : pattern.Carries values matrix)
    (size_values : values.size = pattern.slotCount)
    (wellFormed : pattern.WellFormed) : ofMatrix matrix = .ok pattern := by
  have above {row col : Nat} (upper : row ≤ col)
      (member : (row, col) ∈ matrix.coordinates) :
      row < pattern.size ∧ col < pattern.size := by
    have := wellFormed.entry_le
      ((carries.mem_entries_iff size_values wellFormed upper).mp member)
    omega
  have range : InRange pattern.size matrix.coordinates := by
    intro row col member
    rcases Nat.le_total row col with upper | lower
    · exact above upper member
    · rcases carries.triangle with isUpper | mirrored
      · exact above (isUpper row col member) member
      · exact (above lower (mirrored row col member)).symm
  have canonical := canonical_canonicalOf range
  refine ofMatrix_eq_ok_iff.mpr
    ⟨carries.rows_eq.trans carries.cols_eq.symm, ?_⟩
  rw [carries.rows_eq]
  refine ⟨⟨range, carries.triangle⟩, ?_⟩
  refine wellFormed_canonicalOf.ext wellFormed canonical.size_eq
    fun row col => ?_
  rw [canonical.mem_entries]
  constructor
  · rintro (⟨upper, member⟩ | ⟨rfl, inside⟩)
    · exact (carries.mem_entries_iff size_values wellFormed upper).mp member
    · exact wellFormed.diagonal_mem inside
  · intro member
    have upper := (wellFormed.entry_le member).1
    exact .inl ⟨upper,
      (carries.mem_entries_iff size_values wellFormed upper).mpr member⟩

end Carries

variable [Scalar α]

theorem gatherEntry_below {new : Array α} (below : col < row) :
    pattern.gatherEntry new (row, col, value) = .ok new :=
  if_pos below

theorem gatherEntry_above (wellFormed : pattern.WellFormed)
    (found : pattern.entries[slot]? = some (row, col)) (new : Array α) :
    pattern.gatherEntry new (row, col, value) =
      .ok (new.modify slot (· + value)) := by
  have upper := (wellFormed.entry_le (List.mem_of_getElem? found)).1
  refine (if_neg (Nat.not_lt.mpr upper)).trans ?_
  rw [wellFormed.slot?_of_entry found]

structure Gathered (pattern : Pattern) (values : Array α)
    (done : List (Nat × Nat × α)) (new : Array α) : Prop where
  size_new : new.size = pattern.slotCount
  waiting : ∀ (slot row col : Nat) (value : α),
    pattern.entries[slot]? = some (row, col) → values[slot]? = some value →
    (row, col, value) ∉ done → new[slot]? = some 0
  added : ∀ (slot row col : Nat) (value : α),
    pattern.entries[slot]? = some (row, col) → values[slot]? = some value →
    (row, col, value) ∈ done → new[slot]? = some (0 + value)

theorem gathered_nil (size_values : values.size = pattern.slotCount) :
    pattern.Gathered values [] (.replicate pattern.slotCount 0) where
  size_new := Array.size_replicate
  waiting slot _ _ _ _ held _ := by
    have inside := (Array.getElem?_eq_some_iff.mp held).1
    rw [size_values] at inside
    rw [Array.getElem?_replicate, if_pos inside]
  added _ _ _ _ _ _ member := absurd member List.not_mem_nil

theorem Gathered.below {done : List (Nat × Nat × α)} {new : Array α}
    (gathered : pattern.Gathered values done new)
    (wellFormed : pattern.WellFormed) (below : col < row) :
    pattern.Gathered values (done ++ [(row, col, value)]) new := by
  have same {slot i k : Nat} {other : α}
      (found : pattern.entries[slot]? = some (i, k)) :
      (i, k, other) ∈ done ++ [(row, col, value)] ↔ (i, k, other) ∈ done := by
    rw [List.mem_append, List.mem_singleton]
    refine or_iff_left fun last => ?_
    cases last
    have upper := (wellFormed.entry_le (List.mem_of_getElem? found)).1
    exact Nat.not_lt.mpr upper below
  refine ⟨gathered.size_new, ?_, ?_⟩
  · intro slot i k other found held absent
    rw [same found] at absent
    exact gathered.waiting slot i k other found held absent
  · intro slot i k other found held member
    rw [same found] at member
    exact gathered.added slot i k other found held member

theorem Gathered.above {done : List (Nat × Nat × α)} {new : Array α}
    (gathered : pattern.Gathered values done new)
    (wellFormed : pattern.WellFormed)
    (found : pattern.entries[slot]? = some (row, col))
    (held : values[slot]? = some value) (fresh : (row, col, value) ∉ done) :
    pattern.Gathered values (done ++ [(row, col, value)])
      (new.modify slot (· + value)) := by
  have zero := gathered.waiting slot row col value found held fresh
  have elsewhere {other i k : Nat} {held' : α} (differs : slot ≠ other)
      (found' : pattern.entries[other]? = some (i, k)) :
      (i, k, held') ∈ done ++ [(row, col, value)] ↔
        (i, k, held') ∈ done := by
    rw [List.mem_append, List.mem_singleton]
    refine or_iff_left fun last => differs ?_
    cases last
    have inside := (List.getElem?_eq_some_iff.mp found).1
    exact (List.getElem?_inj inside wellFormed.nodup_entries).mp
      (found.trans found'.symm)
  refine ⟨Array.size_modify.trans gathered.size_new, ?_, ?_⟩
  · intro other i k held' found' valued absent
    have differs : slot ≠ other := by
      rintro rfl
      cases found.symm.trans found'
      cases held.symm.trans valued
      simp at absent
    rw [elsewhere differs found'] at absent
    rw [Array.getElem?_modify, if_neg differs]
    exact gathered.waiting other i k held' found' valued absent
  · intro other i k held' found' valued member
    rw [Array.getElem?_modify]
    by_cases same : slot = other
    · subst same
      cases held.symm.trans valued
      rw [if_pos rfl, zero]
      rfl
    · rw [elsewhere same found'] at member
      rw [if_neg same]
      exact gathered.added other i k held' found' valued member

theorem Carries.gather_eq (carries : pattern.Carries values matrix)
    (size_values : values.size = pattern.slotCount)
    (wellFormed : pattern.WellFormed) :
    pattern.gather matrix = .ok (values.map (0 + ·)) := by
  obtain ⟨new, ran, gathered⟩ := @Checked.foldlM_runs _ _ _
    pattern.gatherEntry matrix.entries (pattern.Gathered values)
    (.replicate pattern.slotCount 0) (gathered_nil size_values) (by
      intro done entry rest new split gathered
      obtain ⟨row, col, value⟩ := entry
      have member : (row, col, value) ∈ matrix.entries := by simp [split]
      have nodup := carries.nodup
      rw [split, List.nodup_append] at nodup
      have fresh : (row, col, value) ∉ done := fun earlier =>
        nodup.2.2 _ earlier _ (List.mem_cons_self ..) rfl
      rcases Nat.lt_or_ge col row with below | upper
      · exact ⟨new, gatherEntry_below below,
          gathered.below wellFormed below⟩
      · obtain ⟨slot, found, held⟩ := mem_upperTriplets.mp
          ((carries.mem_iff row col value upper).mp member)
        exact ⟨_, gatherEntry_above wellFormed found new,
          gathered.above wellFormed found held fresh⟩)
  rw [gather, if_neg (by simp [carries.rows_eq, carries.cols_eq])]
  refine ran.trans (congrArg Except.ok ?_)
  refine Checked.ext_of_size gathered.size_new
    (Array.size_map.trans size_values) fun slot inside => ?_
  have listed : slot < pattern.entries.length := by
    rwa [wellFormed.length_entries]
  have valued : slot < values.size := by rwa [size_values]
  have found := List.getElem?_eq_getElem listed
  have held := Array.getElem?_eq_getElem valued
  have upper := (wellFormed.entry_le (List.mem_of_getElem? found)).1
  rw [Array.getElem?_map, held]
  refine gathered.added slot _ _ _ found held ?_
  rw [carries.mem_iff _ _ _ upper]
  exact mem_upperTriplets.mpr ⟨slot, found, held⟩

theorem ofUpperTriplets_runs (wellFormed : pattern.WellFormed)
    (size_values : values.size = pattern.slotCount) (storage : Storage) :
    ∃ matrix, Sparse.ofUpperTriplets storage pattern.size
        (pattern.upperTriplets values) = .ok matrix ∧
      matrix.entries.Perm (pattern.upperTriplets values) ∧
      pattern.Renders values matrix := by
  obtain ⟨matrix, ran, made⟩ := @Sparse.ofTriplets_runs _ _ storage
    pattern.size pattern.size (pattern.upperTriplets values)
    fun row col value member => by
      have := wellFormed.inside_upperTriplets member
      omega
  have nodup := wellFormed.nodup_entries
  rw [← wellFormed.map_upperTriplets size_values] at nodup
  have perm := made.entries_perm nodup
  refine ⟨matrix, ?_, perm, made.rows_eq, made.cols_eq, .inl perm⟩
  rw [Sparse.ofUpperTriplets_eq fun row col value member =>
    (wellFormed.inside_upperTriplets member).1]
  exact ran

theorem ofTriplets_runs (wellFormed : pattern.WellFormed)
    (size_values : values.size = pattern.slotCount) (storage : Storage) :
    ∃ matrix, Sparse.ofTriplets storage pattern.size pattern.size
        (pattern.fullTriplets values) = .ok matrix ∧
      matrix.entries.Perm (pattern.fullTriplets values) ∧
      pattern.Renders values matrix := by
  obtain ⟨matrix, ran, made⟩ := @Sparse.ofTriplets_runs _ _ storage
    pattern.size pattern.size (pattern.fullTriplets values)
    fun row col value member => wellFormed.inside_fullTriplets member
  have perm := made.entries_perm (wellFormed.nodup_fullTriplets size_values)
  exact ⟨matrix, ran, perm, made.rows_eq, made.cols_eq, .inr perm⟩

theorem toMatrix_runs (wellFormed : pattern.WellFormed)
    (size_values : values.size = pattern.slotCount) :
    ∃ matrix, pattern.toMatrix values = .ok matrix ∧
      pattern.Renders values matrix := by
  obtain ⟨matrix, ran, _, renders⟩ :=
    ofUpperTriplets_runs wellFormed size_values .byColumn
  exact ⟨matrix, ran, renders⟩

end QuasiDefinite.Pattern
