import Mathlib.Data.List.Induction
import QuasiDefinite.Proofs.Checked
import QuasiDefinite.Proofs.Sparse.Entries

namespace QuasiDefinite

variable {α : Type}

namespace Storage

def line (storage : Storage) (row col : Nat) : Nat :=
  match storage with
  | byColumn => col
  | byRow => row

def position (storage : Storage) (row col : Nat) : Nat :=
  match storage with
  | byColumn => row
  | byRow => col

theorem place_eq_iff {storage : Storage} {line position row col : Nat} :
    storage.place line position = (row, col) ↔
      line = storage.line row col ∧ position = storage.position row col := by
  cases storage with
  | byColumn => simp [place, Storage.line, Storage.position, and_comm]
  | byRow => simp [place, Storage.line, Storage.position]

theorem line_inj (storage : Storage) {row col row' col' : Nat} :
    storage.line row' col' = storage.line row col ∧
        storage.position row' col' = storage.position row col ↔
      row' = row ∧ col' = col := by
  cases storage with
  | byColumn => simp [Storage.line, Storage.position, and_comm]
  | byRow => simp [Storage.line, Storage.position]

end Storage

namespace Sparse

section Line

variable {line : List (Nat × α)} {position other : Nat} {value : α}

theorem lookup_eq_none (above : ∀ entry ∈ line, position < entry.1) :
    line.lookup position = none := by
  rw [List.lookup_eq_none_iff]
  intro entry member
  exact bne_iff_ne.mpr (Nat.ne_of_lt (above entry member))

variable [Add α]

theorem mem_addAt {entry : Nat × α}
    (member : entry ∈ addAt position value line) :
    entry.1 = position ∨ entry ∈ line := by
  induction line with
  | nil => exact .inl (congrArg Prod.fst (List.mem_singleton.mp member))
  | cons first rest ih =>
      obtain ⟨place, stored⟩ := first
      rw [addAt] at member
      split at member
      · exact (List.mem_cons.mp member).imp_left (congrArg Prod.fst)
      · split at member
        · next same =>
          rcases List.mem_cons.mp member with rfl | later
          · exact .inl same.symm
          · exact .inr (List.mem_cons_of_mem _ later)
        · rcases List.mem_cons.mp member with rfl | later
          · exact .inr (List.mem_cons_self ..)
          · exact (ih later).imp_right (List.mem_cons_of_mem _)

theorem pairwise_addAt (ascending : line.Pairwise (·.1 < ·.1)) :
    (addAt position value line).Pairwise (·.1 < ·.1) := by
  induction line with
  | nil => exact List.pairwise_singleton ..
  | cons first rest ih =>
      obtain ⟨place, stored⟩ := first
      obtain ⟨above, later⟩ := List.pairwise_cons.mp ascending
      rw [addAt]
      split
      · next below =>
        refine List.pairwise_cons.mpr ⟨fun entry member => ?_, ascending⟩
        rcases List.mem_cons.mp member with rfl | member
        · exact below
        · exact Nat.lt_trans below (above entry member)
      · next notBelow =>
        split
        · exact List.pairwise_cons.mpr ⟨above, later⟩
        · next differs =>
          refine List.pairwise_cons.mpr ⟨fun entry member => ?_, ih later⟩
          rcases mem_addAt member with same | member
          · dsimp only
            omega
          · exact above entry member

theorem lookup_addAt (ascending : line.Pairwise (·.1 < ·.1)) :
    (addAt position value line).lookup other =
      if other = position then
        some ((line.lookup position).elim value (· + value))
      else line.lookup other := by
  induction line with
  | nil => exact lookup_cons ..
  | cons first rest ih =>
      obtain ⟨place, stored⟩ := first
      obtain ⟨above, later⟩ := List.pairwise_cons.mp ascending
      rw [addAt]
      split
      · next below =>
        have absent : ((place, stored) :: rest).lookup position = none := by
          refine lookup_eq_none fun entry member => ?_
          rcases List.mem_cons.mp member with rfl | member
          · exact below
          · exact Nat.lt_trans below (above entry member)
        rw [absent, lookup_cons]
        rfl
      · split
        · next same =>
          subst same
          rw [lookup_cons, lookup_cons, lookup_cons, if_pos rfl]
          by_cases same : other = position
          · rw [if_pos same, if_pos same]
            rfl
          · rw [if_neg same, if_neg same, if_neg same]
        · next differs =>
          rw [lookup_cons, ih later, lookup_cons, if_neg differs, lookup_cons]
          by_cases first : other = place
          · rw [if_pos first, if_pos first, if_neg (first ▸ Ne.symm differs)]
          · rw [if_neg first, if_neg first]

end Line

variable {matrix : Sparse α} {row col row' col' : Nat} {value : α}

structure Ascending (matrix : Sparse α) : Prop where
  size_lines : matrix.lines.size = matrix.outer
  inside : ∀ line ∈ matrix.lines, ∀ entry ∈ line, entry.1 < matrix.inner
  pairwise : ∀ line ∈ matrix.lines, line.Pairwise (·.1 < ·.1)

def stored? (matrix : Sparse α) (row col : Nat) : Option α :=
  matrix.lines[matrix.storage.line row col]?.bind
    (·.lookup (matrix.storage.position row col))

theorem mem_entries : (row, col, value) ∈ matrix.entries ↔
    ∃ line, matrix.lines[matrix.storage.line row col]? = some line ∧
      (matrix.storage.position row col, value) ∈ line := by
  rw [entries, List.mem_flatMap]
  have placed (k position : Nat) (stored : α) :
      (match matrix.storage with
        | .byColumn => (position, k, stored)
        | .byRow => (k, position, stored)) = (row, col, value) ↔
      (k = matrix.storage.line row col ∧
        position = matrix.storage.position row col) ∧ stored = value := by
    rw [← Storage.place_eq_iff]
    cases matrix.storage <;> simp [Storage.place, and_assoc]
  constructor
  · rintro ⟨⟨line, k⟩, listed, member⟩
    obtain ⟨⟨position, stored⟩, here, same⟩ := List.mem_map.mp member
    obtain ⟨⟨rfl, rfl⟩, rfl⟩ := (placed k position stored).mp same
    rw [List.mem_zipIdx_iff_getElem?, Array.getElem?_toList] at listed
    exact ⟨line, listed, here⟩
  · rintro ⟨line, listed, member⟩
    rw [← Array.getElem?_toList] at listed
    exact ⟨(line, _), List.mem_zipIdx_iff_getElem?.mpr listed,
      List.mem_map.mpr ⟨_, member, (placed ..).mpr ⟨⟨rfl, rfl⟩, rfl⟩⟩⟩

namespace Ascending

theorem wellFormed (ascending : matrix.Ascending) : matrix.WellFormed where
  length_support := by
    rw [support, List.length_map, Array.length_toList, ascending.size_lines]
  inside := by
    intro positions supported position member
    obtain ⟨line, listed, rfl⟩ := List.mem_map.mp supported
    obtain ⟨entry, stored, rfl⟩ := List.mem_map.mp member
    exact ascending.inside line (Array.mem_toList_iff.mp listed) entry stored
  nodup := by
    intro positions supported
    obtain ⟨line, listed, rfl⟩ := List.mem_map.mp supported
    have pairwise := ascending.pairwise line (Array.mem_toList_iff.mp listed)
    exact List.pairwise_map.mpr (pairwise.imp Nat.ne_of_lt)

theorem mem_entries_iff (ascending : matrix.Ascending) :
    (row, col, value) ∈ matrix.entries ↔
      matrix.stored? row col = some value := by
  rw [mem_entries, stored?, Option.bind_eq_some_iff]
  refine exists_congr fun line => and_congr_right fun listed => ?_
  have pairwise := ascending.pairwise line (Array.mem_of_getElem? listed)
  exact (lookup_eq_some_iff
    (List.pairwise_map.mpr (pairwise.imp Nat.ne_of_lt))).symm

theorem entry_eq [Zero α] (ascending : matrix.Ascending) :
    matrix.entry row col = (matrix.stored? row col).getD 0 := by
  have paired : matrix.coordinates.zip matrix.values =
      matrix.entries.map
        fun entry => ((entry.1, entry.2.1), entry.2.2) := by
    rw [coordinates, values, List.zip_map']
  cases found : matrix.stored? row col with
  | some value =>
      refine Sparse.entry_eq ascending.wellFormed.nodup_coordinates ?_
      rw [paired]
      exact List.mem_map.mpr
        ⟨(row, col, value), ascending.mem_entries_iff.mpr found, rfl⟩
  | none =>
      refine entry_eq_zero fun member => ?_
      obtain ⟨⟨_, _, value⟩, member, same⟩ := List.mem_map.mp member
      cases same
      rw [ascending.mem_entries_iff, found] at member
      cases member

theorem line_lt (ascending : matrix.Ascending)
    (insideRow : row < matrix.rows) (insideCol : col < matrix.cols) :
    matrix.storage.line row col < matrix.lines.size := by
  rw [ascending.size_lines, outer]
  cases matrix.storage <;> assumption

end Ascending

theorem eq_nil_of_mem_empty {storage : Storage} {rows cols : Nat}
    {line : List (Nat × α)} (listed : line ∈ (empty storage rows cols).lines) :
    line = [] :=
  (Array.mem_replicate.mp listed).2

theorem ascending_empty (storage : Storage) (rows cols : Nat) :
    (empty storage rows cols : Sparse α).Ascending := by
  refine ⟨?_, fun line listed => ?_, fun line listed => ?_⟩
  · cases storage <;> exact Array.size_replicate
  · simp [eq_nil_of_mem_empty listed]
  · simp [eq_nil_of_mem_empty listed]

variable [Add α]

def added (matrix : Sparse α) (row col : Nat) (value : α) : Sparse α :=
  { matrix with
    lines := matrix.lines.modify (matrix.storage.line row col)
      (addAt (matrix.storage.position row col) value) }

theorem mem_lines_added {line : List (Nat × α)}
    (listed : line ∈ (matrix.added row col value).lines) :
    line ∈ matrix.lines ∨ ∃ before ∈ matrix.lines,
      line = addAt (matrix.storage.position row col) value before := by
  obtain ⟨k, found⟩ := Array.mem_iff_getElem?.mp listed
  rw [added, Array.getElem?_modify] at found
  split at found
  · obtain ⟨before, here, rfl⟩ := Option.map_eq_some_iff.mp found
    exact .inr ⟨before, Array.mem_of_getElem? here, rfl⟩
  · exact .inl (Array.mem_of_getElem? found)

namespace Ascending

theorem add_eq (ascending : matrix.Ascending) (insideRow : row < matrix.rows)
    (insideCol : col < matrix.cols) (value : α) :
    matrix.add row col value = .ok (matrix.added row col value) := by
  have modified : Checked.modify matrix.lines
      (matrix.storage.line row col)
      (addAt (matrix.storage.position row col) value) =
        .ok (matrix.added row col value).lines :=
    Checked.modify_eq_ok_iff.mpr ⟨ascending.line_lt insideRow insideCol, rfl⟩
  rw [add, if_neg (Nat.not_le.mpr insideRow),
    if_neg (Nat.not_le.mpr insideCol)]
  obtain ⟨rows, cols, storage, lines⟩ := matrix
  cases storage <;> exact Checked.bind_eq_ok_iff.mpr ⟨_, modified, rfl⟩

theorem added (ascending : matrix.Ascending) (insideRow : row < matrix.rows)
    (insideCol : col < matrix.cols) (value : α) :
    (matrix.added row col value).Ascending where
  size_lines := Array.size_modify.trans ascending.size_lines
  inside line listed entry member := by
    have insidePosition :
        matrix.storage.position row col < matrix.inner := by
      rw [inner]
      cases matrix.storage <;> assumption
    rcases mem_lines_added listed with kept | ⟨before, kept, rfl⟩
    · exact ascending.inside line kept entry member
    · rcases mem_addAt member with same | member
      · exact same ▸ insidePosition
      · exact ascending.inside before kept entry member
  pairwise line listed := by
    rcases mem_lines_added listed with kept | ⟨before, kept, rfl⟩
    · exact ascending.pairwise line kept
    · exact pairwise_addAt (ascending.pairwise before kept)

theorem stored?_added (ascending : matrix.Ascending)
    (insideRow : row < matrix.rows) (insideCol : col < matrix.cols)
    (value : α) (row' col' : Nat) :
    (matrix.added row col value).stored? row' col' =
      if row' = row ∧ col' = col then
        some ((matrix.stored? row col).elim value (· + value))
      else matrix.stored? row' col' := by
  rw [stored?, stored?, stored?]
  dsimp only [Sparse.added]
  rw [Array.getElem?_modify]
  have found := Array.getElem?_eq_getElem
    (ascending.line_lt insideRow insideCol)
  have pairwise := ascending.pairwise _ (Array.mem_of_getElem? found)
  by_cases same : matrix.storage.line row col = matrix.storage.line row' col'
  · rw [if_pos same, ← same, found, Option.map_some, Option.bind_some,
      Option.bind_some, Option.bind_some, lookup_addAt pairwise]
    refine if_congr ?_ rfl rfl
    rw [← matrix.storage.line_inj, and_iff_right same.symm]
  · rw [if_neg same, if_neg]
    rintro ⟨rfl, rfl⟩
    exact same rfl

end Ascending

/-- The values that name a place, added up in their order. -/
def sumAt (triplets : List (Nat × Nat × α)) (row col : Nat) : Option α :=
  triplets.foldl
    (fun found (row', col', value) =>
      if row = row' ∧ col = col' then some (found.elim value (· + value))
      else found)
    none

theorem sumAt_append (triplets : List (Nat × Nat × α)) (value : α) :
    sumAt (triplets ++ [(row', col', value)]) row col =
      if row = row' ∧ col = col' then
        some ((sumAt triplets row' col').elim value (· + value))
      else sumAt triplets row col := by
  rw [sumAt, List.foldl_append]
  by_cases same : row = row' ∧ col = col'
  · obtain ⟨rfl, rfl⟩ := same
    rfl
  · simp [same, sumAt]

/-- The matrix holds the triplets, added up place by place. -/
structure MadeOf (matrix : Sparse α) (storage : Storage) (rows cols : Nat)
    (triplets : List (Nat × Nat × α)) : Prop where
  rows_eq : matrix.rows = rows
  cols_eq : matrix.cols = cols
  storage_eq : matrix.storage = storage
  ascending : matrix.Ascending
  stored : ∀ row col, matrix.stored? row col = sumAt triplets row col

variable {storage : Storage} {rows cols size : Nat}
  {triplets : List (Nat × Nat × α)}

theorem ofTriplets_runs
    (inside : ∀ row col value, (row, col, value) ∈ triplets →
      row < rows ∧ col < cols) :
    ∃ matrix, ofTriplets storage rows cols triplets = .ok matrix ∧
      matrix.MadeOf storage rows cols triplets := by
  apply Checked.foldlM_runs
    fun done (matrix : Sparse α) => matrix.MadeOf storage rows cols done
  · refine ⟨rfl, rfl, rfl, ascending_empty .., fun row col => ?_⟩
    refine Option.bind_eq_none_iff.mpr fun line listed => ?_
    rw [eq_nil_of_mem_empty (Array.mem_of_getElem? listed)]
    rfl
  · rintro done ⟨row, col, value⟩ rest matrix split made
    have here := inside row col value (by simp [split])
    rw [← made.rows_eq, ← made.cols_eq] at here
    refine ⟨_, made.ascending.add_eq here.1 here.2 value, made.rows_eq,
      made.cols_eq, made.storage_eq, made.ascending.added here.1 here.2 value,
      fun row' col' => ?_⟩
    rw [made.ascending.stored?_added here.1 here.2, sumAt_append, made.stored,
      made.stored]

theorem ofUpperTriplets_eq
    (upper : ∀ row col value, (row, col, value) ∈ triplets → row ≤ col) :
    ofUpperTriplets storage size triplets =
      ofTriplets storage size size triplets := by
  have passed : (triplets.forM fun (row, col, _) =>
      if col < row then throw (Fault.belowDiagonal row col) else pure () :
      Checked Unit) = .ok () := by
    refine Checked.forM_runs fun (row, col, value) member => ?_
    exact if_neg (Nat.not_lt.mpr (upper row col value member))
  rw [ofUpperTriplets, passed]
  rfl

theorem sumAt_eq_some_iff
    (nodup : (triplets.map fun (row, col, _) => (row, col)).Nodup) :
    sumAt triplets row col = some value ↔ (row, col, value) ∈ triplets := by
  induction triplets using List.reverseRecOn generalizing value with
  | nil => simp [sumAt]
  | append_singleton triplets last ih =>
      obtain ⟨row', col', value'⟩ := last
      rw [List.map_append, List.nodup_append] at nodup
      obtain ⟨nodup, _, apart⟩ := nodup
      rw [sumAt_append, List.mem_append, List.mem_singleton, Prod.mk.injEq,
        Prod.mk.injEq, ← ih nodup]
      by_cases same : row = row' ∧ col = col'
      · obtain ⟨rfl, rfl⟩ := same
        have absent : sumAt triplets row col = none := by
          rw [Option.eq_none_iff_forall_ne_some]
          intro other found
          have member := (ih nodup).mp found
          exact apart (row, col) (List.mem_map_of_mem member) (row, col)
            (List.mem_singleton_self _) rfl
        simp [absent, eq_comm]
      · rw [if_neg same]
        refine (or_iff_left ?_).symm
        rintro ⟨rfl, rfl, _⟩
        exact same ⟨rfl, rfl⟩

theorem MadeOf.entries_perm (made : matrix.MadeOf storage rows cols triplets)
    (nodup : (triplets.map fun (row, col, _) => (row, col)).Nodup) :
    matrix.entries.Perm triplets := by
  have distinct := made.ascending.wellFormed.nodup_coordinates
  rw [List.perm_ext_iff_of_nodup (.of_map _ distinct) (.of_map _ nodup)]
  rintro ⟨row, col, value⟩
  rw [made.ascending.mem_entries_iff, made.stored, sumAt_eq_some_iff nodup]

end Sparse

end QuasiDefinite
