import Mathlib.Data.List.Nodup
import QuasiDefinite.Sparse.Basic

namespace QuasiDefinite

namespace Storage

def place (storage : Storage) (line position : Nat) : Nat × Nat :=
  match storage with
  | byColumn => (position, line)
  | byRow => (line, position)

theorem place_inj {storage : Storage} {line line' position position' : Nat} :
    storage.place line position = storage.place line' position' ↔
      line = line' ∧ position = position' := by
  cases storage with
  | byColumn => simp [place, and_comm]
  | byRow => simp [place]

end Storage

namespace Sparse

variable {α : Type} {matrix : Sparse α} {row col : Nat}

def outer (matrix : Sparse α) : Nat :=
  match matrix.storage with
  | .byColumn => matrix.cols
  | .byRow => matrix.rows

def inner (matrix : Sparse α) : Nat :=
  match matrix.storage with
  | .byColumn => matrix.rows
  | .byRow => matrix.cols

/-- Every line lists positions of the matrix, none of them twice. -/
structure WellFormed (matrix : Sparse α) : Prop where
  length_support : matrix.support.length = matrix.outer
  inside : ∀ positions ∈ matrix.support, ∀ position ∈ positions,
    position < matrix.inner
  nodup : ∀ positions ∈ matrix.support, positions.Nodup

/-- The places of the stored entries, in the order of storage. -/
def coordinates (matrix : Sparse α) : List (Nat × Nat) :=
  matrix.entries.map fun (row, col, _) => (row, col)

/-- The entry at a place, zero where none is stored. -/
def entry [Zero α] (matrix : Sparse α) (row col : Nat) : α :=
  ((matrix.coordinates.zip matrix.values).lookup (row, col)).getD 0

theorem coordinates_eq : matrix.coordinates =
    matrix.support.zipIdx.flatMap fun (positions, k) =>
      positions.map (matrix.storage.place k) := by
  rw [coordinates, entries, support, List.map_flatMap, List.zipIdx_map,
    List.flatMap_map]
  refine List.flatMap_congr fun (line, k) _ => ?_
  dsimp only [Prod.map_apply, id]
  rw [List.map_map, List.map_map]
  refine List.map_congr_left fun (position, value) _ => ?_
  cases storage : matrix.storage <;> simp [Storage.place]

theorem length_coordinates :
    matrix.coordinates.length = matrix.values.length := by
  rw [coordinates, values, List.length_map, List.length_map]

theorem mem_coordinates : (row, col) ∈ matrix.coordinates ↔
    ∃ k positions position, matrix.support[k]? = some positions ∧
      position ∈ positions ∧ matrix.storage.place k position = (row, col) := by
  rw [coordinates_eq, List.mem_flatMap]
  constructor
  · rintro ⟨⟨positions, k⟩, listed, member⟩
    obtain ⟨position, here, placed⟩ := List.mem_map.mp member
    exact ⟨k, positions, position, List.mem_zipIdx_iff_getElem?.mp listed,
      here, placed⟩
  · rintro ⟨k, positions, position, listed, here, placed⟩
    exact ⟨(positions, k), List.mem_zipIdx_iff_getElem?.mpr listed,
      List.mem_map.mpr ⟨position, here, placed⟩⟩

theorem WellFormed.coordinates_inside (wellFormed : matrix.WellFormed)
    (member : (row, col) ∈ matrix.coordinates) :
    row < matrix.rows ∧ col < matrix.cols := by
  obtain ⟨k, positions, position, listed, here, placed⟩ :=
    mem_coordinates.mp member
  have outside := (List.getElem?_eq_some_iff.mp listed).1
  have inside :=
    wellFormed.inside positions (List.mem_of_getElem? listed) position here
  rw [wellFormed.length_support, outer] at outside
  rw [inner] at inside
  cases storage : matrix.storage with
  | byColumn =>
      simp only [storage, Storage.place, Prod.mk.injEq] at *
      omega
  | byRow =>
      simp only [storage, Storage.place, Prod.mk.injEq] at *
      omega

theorem WellFormed.nodup_coordinates (wellFormed : matrix.WellFormed) :
    matrix.coordinates.Nodup := by
  rw [coordinates_eq, List.nodup_flatMap]
  constructor
  · rintro ⟨positions, k⟩ listed
    have member := List.mem_of_getElem? (List.mem_zipIdx_iff_getElem?.mp listed)
    exact (wellFormed.nodup positions member).map fun _ _ same =>
      (Storage.place_inj.mp same).2
  · rw [List.pairwise_iff_getElem]
    intro k k' inside inside' below place here here'
    rw [List.getElem_zipIdx] at here here'
    obtain ⟨_, _, rfl⟩ := List.mem_map.mp here
    obtain ⟨_, _, same⟩ := List.mem_map.mp here'
    have := (Storage.place_inj.mp same).1
    omega

/-! Matrices of one structure. -/

theorem sameStructure_iff {left right : Sparse α} :
    left.sameStructure right = true ↔ left.rows = right.rows ∧
      left.cols = right.cols ∧ left.storage = right.storage ∧
      left.support = right.support := by
  simp only [sameStructure, Bool.and_eq_true, beq_iff_eq, and_assoc]

theorem coordinates_of_sameStructure {left right : Sparse α}
    (same : left.sameStructure right = true) :
    left.coordinates = right.coordinates := by
  obtain ⟨_, _, storage, support⟩ := sameStructure_iff.mp same
  rw [coordinates_eq, coordinates_eq, storage, support]

theorem sameStructure_congr {left middle right : Sparse α}
    (same : left.sameStructure middle = true) :
    middle.sameStructure right = left.sameStructure right := by
  obtain ⟨rows, cols, storage, support⟩ := sameStructure_iff.mp same
  rw [sameStructure, sameStructure, rows, cols, storage, support]

theorem coordinates_of_entryCount (none : matrix.entryCount = 0) :
    matrix.coordinates = [] := by
  have empty : matrix.support.flatten = [] := by
    rw [← List.length_eq_zero_iff, ← total_map_length, ← none, entryCount,
      support, List.map_map]
    congr 2
    funext line
    exact List.length_map ..
  rw [coordinates_eq, List.flatMap_eq_nil_iff]
  rintro ⟨positions, k⟩ listed
  have member := List.mem_of_getElem? (List.mem_zipIdx_iff_getElem?.mp listed)
  rw [List.flatten_eq_nil_iff.mp empty positions member]
  rfl

section Lookup

variable {κ β : Type} [BEq κ] [LawfulBEq κ] [DecidableEq κ]
  {stored : List (κ × β)} {key : κ} {value : β}

theorem lookup_cons (first : κ) (held : β) (rest : List (κ × β)) :
    ((first, held) :: rest).lookup key =
      if key = first then some held else rest.lookup key := by
  rw [List.lookup_cons]
  cases found : key == first with
  | true => rw [if_pos (beq_iff_eq.mp found)]
  | false => rw [if_neg (beq_eq_false_iff_ne.mp found)]

theorem lookup_eq_some_iff (nodup : (stored.map Prod.fst).Nodup) :
    stored.lookup key = some value ↔ (key, value) ∈ stored := by
  induction stored with
  | nil => simp
  | cons entry rest ih =>
      obtain ⟨first, held⟩ := entry
      rw [List.map_cons, List.nodup_cons] at nodup
      rw [lookup_cons, List.mem_cons, Prod.mk.injEq]
      by_cases same : key = first
      · subst same
        have absent : (key, value) ∉ rest := fun member =>
          nodup.1 (List.mem_map.mpr ⟨_, member, rfl⟩)
        simp [absent, eq_comm]
      · rw [if_neg same, ih nodup.2]
        exact (or_iff_right fun both => same both.1).symm

end Lookup

variable [Zero α]

theorem entry_eq (nodup : matrix.coordinates.Nodup) {value : α}
    (member : ((row, col), value) ∈ matrix.coordinates.zip matrix.values) :
    matrix.entry row col = value := by
  rw [← List.map_fst_zip (Nat.le_of_eq length_coordinates)] at nodup
  rw [entry, (lookup_eq_some_iff nodup).mpr member]
  rfl

theorem entry_eq_zero (absent : (row, col) ∉ matrix.coordinates) :
    matrix.entry row col = 0 := by
  rw [entry, List.lookup_eq_none_iff.mpr]
  · rfl
  · rintro ⟨place, value⟩ member
    rw [bne_iff_ne]
    rintro rfl
    exact absent (List.of_mem_zip member).1

end Sparse

end QuasiDefinite
