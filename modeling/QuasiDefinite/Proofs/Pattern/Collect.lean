import QuasiDefinite.Proofs.Pattern.Values

namespace QuasiDefinite.Pattern

variable {α : Type} {pattern : Pattern} {matrix : Sparse α}
  {values start : Array α} {row col slot : Nat}

/-- Does the entry lie on or above the diagonal, in the slot? -/
def names (pattern : Pattern) (slot : Nat) (entry : Nat × Nat × α) : Bool :=
  entry.1 ≤ entry.2.1 && pattern.slot? entry.1 entry.2.1 == some slot

def refusal (pattern : Pattern) (entry : Nat × Nat × α) : Option (Error α) :=
  if entry.1 ≤ entry.2.1 ∧ pattern.slot? entry.1 entry.2.1 = none then
    some (.configuration (.foreignEntry entry.1 entry.2.1))
  else none

theorem refusal_eq_none_iff {entry : Nat × Nat × α} :
    pattern.refusal entry = none ↔
      (entry.1 ≤ entry.2.1 → ∃ slot, pattern.slot? entry.1 entry.2.1 =
        some slot) := by
  rw [refusal, ite_eq_right_iff, ← Option.ne_none_iff_exists']
  simp

theorem refusal_eq_some_iff {value : α} {error : Error α} :
    pattern.refusal (row, col, value) = some error ↔
      (row ≤ col ∧ pattern.slot? row col = none) ∧
        .configuration (.foreignEntry row col) = error := by
  rw [refusal, Option.ite_none_right_eq_some, Option.some.injEq]

theorem accepted_iff : matrix.entries.findSome? pattern.refusal = none ↔
    ∀ row col, row ≤ col → (row, col) ∈ matrix.coordinates →
      ∃ slot, pattern.slot? row col = some slot := by
  simp only [List.findSome?_eq_none_iff, refusal_eq_none_iff,
    mem_coordinates_iff]
  constructor
  · rintro accepted row col upper ⟨value, member⟩
    exact accepted _ member upper
  · rintro covers ⟨row, col, value⟩ member upper
    exact covers row col upper ⟨value, member⟩

variable [Scalar α]

def collectEntry (pattern : Pattern) (values : Array α)
    (entry : Nat × Nat × α) : Array α :=
  if entry.2.1 < entry.1 then values
  else (pattern.slot? entry.1 entry.2.1).elim values
    fun slot => values.modify slot (· + entry.2.2)

/-- The entries on and above the diagonal that name the slot, added to `start`
in their order. -/
def sumIn (pattern : Pattern) (slot : Nat) (entries : List (Nat × Nat × α))
    (start : α) : α :=
  (entries.filter (pattern.names slot)).foldl
    (fun total entry => total + entry.2.2) start

/-- The values are those of the matrix on and above the diagonal: every entry
there has a slot, and every slot holds the sum of its entries. -/
structure Collects (pattern : Pattern) (matrix : Sparse α)
    (values : Array α) : Prop where
  size_eq : values.size = pattern.slotCount
  covers : ∀ row col, row ≤ col → (row, col) ∈ matrix.coordinates →
    ∃ slot, pattern.slot? row col = some slot
  holds : ∀ slot, slot < pattern.slotCount →
    values[slot]? = some (pattern.sumIn slot matrix.entries 0)

theorem gatherEntry_of_refusal {entry : Nat × Nat × α} {error : Error α}
    (refused : pattern.refusal entry = some error) :
    pattern.gatherEntry values entry = .error error := by
  obtain ⟨row, col, value⟩ := entry
  obtain ⟨⟨upper, absent⟩, rfl⟩ := refusal_eq_some_iff.mp refused
  refine (if_neg (Nat.not_lt.mpr upper)).trans ?_
  rw [absent]

theorem gatherEntry_of_accepted {entry : Nat × Nat × α}
    (accepted : pattern.refusal entry = none) :
    pattern.gatherEntry values entry =
      .ok (pattern.collectEntry values entry) := by
  obtain ⟨row, col, value⟩ := entry
  rw [gatherEntry, collectEntry]
  dsimp only
  by_cases below : col < row
  · rw [if_pos below, if_pos below]
  · obtain ⟨slot, found⟩ :=
      refusal_eq_none_iff.mp accepted (Nat.le_of_not_lt below)
    rw [if_neg below, if_neg below, found]
    rfl

theorem size_collectEntry (entry : Nat × Nat × α) :
    (pattern.collectEntry values entry).size = values.size := by
  rw [collectEntry]
  split
  · rfl
  · cases pattern.slot? entry.1 entry.2.1 with
    | none => rfl
    | some slot => exact Array.size_modify

theorem collectEntry_getElem? (entry : Nat × Nat × α) (slot : Nat) :
    (pattern.collectEntry values entry)[slot]? =
      values[slot]?.map fun total =>
        if pattern.names slot entry then total + entry.2.2 else total := by
  rw [collectEntry, names]
  by_cases below : entry.2.1 < entry.1
  · simp [below, Nat.not_le.mpr below]
  · cases found : pattern.slot? entry.1 entry.2.1 with
    | none => simp [below]
    | some other =>
        rw [if_neg below, Option.elim_some, Array.getElem?_modify]
        by_cases same : other = slot
        · simp [same, Nat.le_of_not_lt below]
        · simp [same]

theorem size_collected (entries : List (Nat × Nat × α)) (start : Array α) :
    (entries.foldl pattern.collectEntry start).size = start.size := by
  induction entries generalizing start with
  | nil => rfl
  | cons entry rest ih => rw [List.foldl_cons, ih, size_collectEntry]

theorem collected_getElem? (entries : List (Nat × Nat × α)) (start : Array α)
    (slot : Nat) :
    (entries.foldl pattern.collectEntry start)[slot]? =
      start[slot]?.map (pattern.sumIn slot entries) := by
  induction entries generalizing start with
  | nil => exact Option.map_id'.symm
  | cons entry rest ih =>
      rw [List.foldl_cons, ih, collectEntry_getElem?, Option.map_map]
      congr 1
      funext total
      rw [Function.comp_apply, sumIn, sumIn, List.filter_cons]
      split <;> rfl

theorem gather_eq (rows_eq : matrix.rows = pattern.size)
    (cols_eq : matrix.cols = pattern.size) :
    pattern.gather matrix = (matrix.entries.findSome? pattern.refusal).elim
      (.ok (matrix.entries.foldl pattern.collectEntry
        (.replicate pattern.slotCount 0))) .error := by
  refine (if_neg (by simp [rows_eq, cols_eq])).trans ?_
  refine Checked.foldlM_eq_of_refusal ?_ ?_ matrix.entries _
  · exact fun _ _ _ refused => gatherEntry_of_refusal refused
  · exact fun _ _ accepted => gatherEntry_of_accepted accepted

theorem collects_collected
    (accepted : matrix.entries.findSome? pattern.refusal = none) :
    pattern.Collects matrix (matrix.entries.foldl pattern.collectEntry
      (.replicate pattern.slotCount 0)) where
  size_eq := (size_collected ..).trans Array.size_replicate
  covers := accepted_iff.mp accepted
  holds slot inside := by
    rw [collected_getElem?, Array.getElem?_replicate, if_pos inside,
      Option.map_some]

theorem Collects.unique {values' : Array α}
    (collects : pattern.Collects matrix values)
    (collects' : pattern.Collects matrix values') : values = values' :=
  Checked.ext_of_size collects.size_eq collects'.size_eq fun slot inside =>
    (collects.holds slot inside).trans (collects'.holds slot inside).symm

theorem gather_eq_ok_iff (rows_eq : matrix.rows = pattern.size)
    (cols_eq : matrix.cols = pattern.size) :
    pattern.gather matrix = .ok values ↔ pattern.Collects matrix values := by
  rw [gather_eq rows_eq cols_eq]
  cases refused : matrix.entries.findSome? pattern.refusal with
  | some error =>
      refine iff_of_false nofun fun collects => ?_
      rw [accepted_iff.mpr collects.covers] at refused
      cases refused
  | none =>
      have collects := collects_collected refused
      rw [Option.elim_none, Except.ok.injEq]
      exact ⟨fun same => same ▸ collects, collects.unique⟩

theorem gather_eq_error_iff (rows_eq : matrix.rows = pattern.size)
    (cols_eq : matrix.cols = pattern.size) {error : Error α} :
    pattern.gather matrix = .error error ↔
      ∃ before row col value after,
        matrix.entries = before ++ (row, col, value) :: after ∧
        (row ≤ col ∧ pattern.slot? row col = none) ∧
        .configuration (.foreignEntry row col) = error ∧
        ∀ entry ∈ before, pattern.refusal entry = none := by
  have found : pattern.gather matrix = .error error ↔
      matrix.entries.findSome? pattern.refusal = some error := by
    rw [gather_eq rows_eq cols_eq]
    cases matrix.entries.findSome? pattern.refusal <;> simp
  rw [found, List.findSome?_eq_some_iff]
  constructor
  · rintro ⟨before, ⟨row, col, value⟩, after, split, refused, accepted⟩
    obtain ⟨foreign, named⟩ := refusal_eq_some_iff.mp refused
    exact ⟨before, row, col, value, after, split, foreign, named, accepted⟩
  · rintro ⟨before, row, col, value, after, split, foreign, named, accepted⟩
    exact ⟨before, (row, col, value), after, split,
      refusal_eq_some_iff.mpr ⟨foreign, named⟩, accepted⟩

/-! Matrices of any size. -/

theorem gather_misfit (misfit : ¬(matrix.rows = pattern.size ∧
    matrix.cols = pattern.size)) :
    pattern.gather matrix = .error (.dimension .gatheredMatrix pattern.size
      (max matrix.rows matrix.cols)) := by
  rw [gather, if_pos (not_and_or.mp misfit)]
  rfl

theorem gather_size (gathered : pattern.gather matrix = .ok values) :
    values.size = pattern.slotCount := by
  by_cases sizes : matrix.rows = pattern.size ∧ matrix.cols = pattern.size
  · exact ((gather_eq_ok_iff sizes.1 sizes.2).mp gathered).size_eq
  · rw [gather_misfit sizes] at gathered
    cases gathered

end QuasiDefinite.Pattern
