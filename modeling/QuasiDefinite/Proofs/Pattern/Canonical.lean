import QuasiDefinite.Proofs.NewtonSystem.Slots
import QuasiDefinite.Proofs.Pattern.Adopted
import QuasiDefinite.Proofs.Sparse.Entries

namespace QuasiDefinite.Pattern

open Compressed (base)

/-! What is asked of coordinates. -/

def InRange (size : Nat) (entries : List (Nat × Nat)) : Prop :=
  ∀ row col, (row, col) ∈ entries → row < size ∧ col < size

def IsUpper (entries : List (Nat × Nat)) : Prop :=
  ∀ row col, (row, col) ∈ entries → row ≤ col

def Mirrored (entries : List (Nat × Nat)) : Prop :=
  ∀ row col, (row, col) ∈ entries → (col, row) ∈ entries

/-- The pattern has the entries on and above the diagonal and the rest of the
diagonal, in ascending columns that end with the diagonal. The list of its
entries and the look-up of slots are inverse to each other. -/
structure Canonical (pattern : Pattern) (size : Nat)
    (entries : List (Nat × Nat)) : Prop where
  size_eq : pattern.size = size
  mem_entries : ∀ row col, (row, col) ∈ pattern.entries ↔
    row ≤ col ∧ (row, col) ∈ entries ∨ row = col ∧ col < size
  adoptable : Adoptable size pattern.upper
  entry_iff : ∀ slot row col : Nat,
    pattern.entries[slot]? = some (row, col) ↔ row ≤ col ∧
      pattern.slot? row col = some slot ∧ pattern.slot? col row = some slot
  slot?_eq_none_iff : ∀ row col, pattern.slot? row col = none ↔
    (row, col) ∉ pattern.entries ∧ (col, row) ∉ pattern.entries

variable {size row col slot : Nat} {entries entries' : List (Nat × Nat)}
  {pattern pattern' : Pattern}

/-! Every well-formed pattern is stored in canonical form. -/

theorem slot?_comm (pattern : Pattern) (row col : Nat) :
    pattern.slot? row col = pattern.slot? col row := by
  rw [slot?, slot?, Nat.min_comm, Nat.max_comm]

namespace WellFormed

theorem adoptable (wellFormed : pattern.WellFormed) :
    Adoptable pattern.size pattern.upper := by
  obtain ⟨columns, rfl, areColumns⟩ := wellFormed
  have starts {count : Nat} (inside : count ≤ columns.length) :
      first ⟨columns.length, (ofColumns columns).upper⟩ count =
        base columns count := first_ofColumns inside
  refine ⟨⟨Compressed.size_start, ?_, ?_⟩, ?_, ?_⟩
  · exact (starts (Nat.zero_le _)).trans Compressed.base_zero
  · exact (starts (Nat.le_refl _)).trans Compressed.size_index.symm
  · intro col inside
    rw [size_ofColumns, starts (Nat.le_of_lt inside), starts inside]
    exact Compressed.base_mono (Nat.le_succ col)
  · intro col inside
    have listed := List.getElem?_eq_getElem inside
    have same : column ⟨columns.length, (ofColumns columns).upper⟩ col =
        columns[col] := column_ofColumns listed
    rw [size_ofColumns, same]
    exact areColumns col _ listed

theorem entry_iff (wellFormed : pattern.WellFormed) :
    pattern.entries[slot]? = some (row, col) ↔ row ≤ col ∧
      pattern.slot? row col = some slot ∧
        pattern.slot? col row = some slot := by
  rw [slot?_comm pattern col row, and_self]
  constructor
  · intro found
    exact ⟨(wellFormed.entry_le (List.mem_of_getElem? found)).1,
      wellFormed.slot?_of_entry found⟩
  · rintro ⟨upper, slotted⟩
    exact wellFormed.entry_of_slot? upper slotted

theorem mem_entries_iff (wellFormed : pattern.WellFormed) :
    (min row col, max row col) ∈ pattern.entries ↔
      (row, col) ∈ pattern.entries ∨ (col, row) ∈ pattern.entries := by
  rcases Nat.le_total row col with upper | lower
  · rw [Nat.min_eq_left upper, Nat.max_eq_right upper]
    refine ⟨Or.inl, fun either => either.elim id fun member => ?_⟩
    have same := Nat.le_antisymm upper (wellFormed.entry_le member).1
    rwa [same] at member ⊢
  · rw [Nat.min_eq_right lower, Nat.max_eq_left lower]
    refine ⟨Or.inr, fun either => either.elim (fun member => ?_) id⟩
    have same := Nat.le_antisymm lower (wellFormed.entry_le member).1
    rwa [same] at member ⊢

theorem slot?_eq_none_iff (wellFormed : pattern.WellFormed) :
    pattern.slot? row col = none ↔
      (row, col) ∉ pattern.entries ∧ (col, row) ∉ pattern.entries := by
  rw [← not_or, ← wellFormed.mem_entries_iff, List.mem_iff_getElem?,
    Option.eq_none_iff_forall_ne_some, not_exists]
  exact forall_congr' fun slot => not_congr wellFormed.slot?_eq_some_iff

theorem canonical (wellFormed : pattern.WellFormed)
    (size_eq : pattern.size = size)
    (mem_entries : ∀ row col, (row, col) ∈ pattern.entries ↔
      row ≤ col ∧ (row, col) ∈ entries ∨ row = col ∧ col < size) :
    pattern.Canonical size entries where
  size_eq := size_eq
  mem_entries := mem_entries
  adoptable := size_eq ▸ wellFormed.adoptable
  entry_iff _ _ _ := wellFormed.entry_iff
  slot?_eq_none_iff _ _ := wellFormed.slot?_eq_none_iff

end WellFormed

/-! Columns filled with coordinates. -/

/-- The columns that hold the coordinates and the diagonal. -/
def filled (size : Nat) (entries : List (Nat × Nat)) : Array (List Nat) :=
  entries.foldl (fun columns (row, col) => columns.modify col (insertRow row))
    (diagonalColumns size)

def upperHalf (entries : List (Nat × Nat)) : List (Nat × Nat) :=
  entries.filter fun (row, col) => row ≤ col

def lowerHalf (entries : List (Nat × Nat)) : List (Nat × Nat) :=
  (entries.filter fun (row, col) => col < row).map Prod.swap

theorem mem_upperHalf :
    (row, col) ∈ upperHalf entries ↔ row ≤ col ∧ (row, col) ∈ entries := by
  simp [upperHalf, and_comm]

theorem mem_lowerHalf :
    (row, col) ∈ lowerHalf entries ↔ row < col ∧ (col, row) ∈ entries := by
  simp [lowerHalf, and_comm]

theorem size_diagonalColumns (size : Nat) :
    (diagonalColumns size).size = size := by
  simp [diagonalColumns]

theorem size_filled : (filled size entries).size = size := by
  rw [filled, size_foldl, size_diagonalColumns]

theorem lists_filled : Lists (filled size entries) row col ↔
    ((row, col) ∈ entries ∨ row = col) ∧ col < size := by
  rw [filled, lists_foldl, lists_diagonalColumns, size_diagonalColumns,
    or_and_right, or_comm]

theorem areColumns_filled (upper : IsUpper entries) :
    AreColumns (filled size entries).toList :=
  areColumns_foldl (areColumns_diagonalColumns size)
    fun (row, col) member => upper row col member

theorem isUpper_upperHalf : IsUpper (upperHalf entries) :=
  fun _ _ member => (mem_upperHalf.mp member).1

theorem isUpper_lowerHalf : IsUpper (lowerHalf entries) :=
  fun _ _ member => Nat.le_of_lt (mem_lowerHalf.mp member).1

theorem upperHalf_of_isUpper (upper : IsUpper entries) :
    upperHalf entries = entries :=
  List.filter_eq_self.mpr fun (row, col) member =>
    decide_eq_true (upper row col member)

def canonicalOf (size : Nat) (entries : List (Nat × Nat)) : Pattern :=
  ofColumns (filled size (upperHalf entries)).toList

theorem wellFormed_canonicalOf : (canonicalOf size entries).WellFormed :=
  ⟨_, rfl, areColumns_filled isUpper_upperHalf⟩

theorem canonical_canonicalOf (range : InRange size entries) :
    (canonicalOf size entries).Canonical size entries := by
  refine wellFormed_canonicalOf.canonical ?_ fun row col => ?_
  · rw [canonicalOf, size_ofColumns, Array.length_toList, size_filled]
  · rw [canonicalOf, mem_entries]
    simp only [Array.getElem?_toList]
    rw [← Lists, lists_filled, mem_upperHalf, or_and_right]
    exact or_congr_left (and_iff_left_of_imp fun member =>
      (range row col member.2).2)

theorem foldl_place (triangles : Triangles) :
    entries.foldl (fun triangles (row, col) =>
        Triangles.place triangles row col) triangles =
      ⟨(upperHalf entries).foldl (fun columns (row, col) =>
          columns.modify col (insertRow row)) triangles.upper,
        (lowerHalf entries).foldl (fun columns (row, col) =>
          columns.modify col (insertRow row)) triangles.lower⟩ := by
  induction entries generalizing triangles with
  | nil => rfl
  | cons entry rest ih =>
      obtain ⟨row, col⟩ := entry
      rw [List.foldl_cons, ih, upperHalf, upperHalf, lowerHalf, lowerHalf]
      dsimp only [Triangles.place]
      by_cases upper : row ≤ col
      · rw [if_pos upper, List.filter_cons_of_pos (by simpa using upper),
          List.filter_cons_of_neg (by simpa using upper), List.foldl_cons]
      · rw [if_neg upper, List.filter_cons_of_neg (by simpa using upper),
          List.filter_cons_of_pos (by simpa using upper), List.map_cons,
          List.foldl_cons]
        rfl

theorem eq_of_lists_iff {left right : Array (List Nat)}
    (left_size : left.size = size) (right_size : right.size = size)
    (areLeft : AreColumns left.toList) (areRight : AreColumns right.toList)
    (same : ∀ row col, Lists left row col ↔ Lists right row col) :
    left = right := by
  refine Array.ext (left_size.trans right_size.symm)
    fun col inside inside' => ?_
  have listed := Array.getElem?_eq_getElem inside
  have listed' := Array.getElem?_eq_getElem inside'
  refine List.Pairwise.eq_of_mem_iff
    (areLeft col _ (by simp)).1 (areRight col _ (by simp)).1 fun row => ?_
  have here := same row col
  rw [Lists, Lists, listed, listed'] at here
  simpa using here

theorem filled_halves_eq_iff (range : InRange size entries) :
    filled size (upperHalf entries) = filled size (lowerHalf entries) ↔
      Mirrored entries := by
  constructor
  · intro same row col member
    obtain ⟨insideRow, insideCol⟩ := range row col member
    rcases Nat.lt_trichotomy row col with upper | rfl | lower
    · have listed : Lists (filled size (upperHalf entries)) row col :=
        lists_filled.mpr ⟨.inl (mem_upperHalf.mpr
          ⟨Nat.le_of_lt upper, member⟩), insideCol⟩
      rw [same] at listed
      have mirrored := (lists_filled.mp listed).1.resolve_right
        (Nat.ne_of_lt upper)
      exact (mem_lowerHalf.mp mirrored).2
    · exact member
    · have listed : Lists (filled size (lowerHalf entries)) col row :=
        lists_filled.mpr ⟨.inl (mem_lowerHalf.mpr ⟨lower, member⟩), insideRow⟩
      rw [← same] at listed
      have mirrored := (lists_filled.mp listed).1.resolve_right
        (Nat.ne_of_lt lower)
      exact (mem_upperHalf.mp mirrored).2
  · intro mirrored
    refine eq_of_lists_iff size_filled size_filled
      (areColumns_filled isUpper_upperHalf)
      (areColumns_filled isUpper_lowerHalf) fun row col => ?_
    rw [lists_filled, lists_filled, mem_upperHalf, mem_lowerHalf]
    refine and_congr_left fun _ => ?_
    constructor
    · rintro (⟨upper, member⟩ | same)
      · rcases Nat.lt_or_eq_of_le upper with below | same
        · exact .inl ⟨below, mirrored row col member⟩
        · exact .inr same
      · exact .inr same
    · rintro (⟨below, member⟩ | same)
      · exact .inl ⟨Nat.le_of_lt below, mirrored col row member⟩
      · exact .inr same

theorem checkRange_eq_ok_iff :
    checkRange size row col = .ok () ↔ row < size ∧ col < size := by
  rw [checkRange]
  split
  · next inside => exact iff_of_true rfl inside
  · next outside => exact iff_of_false (by rintro ⟨⟩) outside

theorem checkRanges_eq_ok_iff :
    entries.forM (fun (row, col) => checkRange size row col) = .ok () ↔
      InRange size entries := by
  constructor
  · intro passed row col member
    exact checkRange_eq_ok_iff.mp (Checked.forM_eq_ok passed _ member)
  · intro range
    exact Checked.forM_runs fun (row, col) member =>
      checkRange_eq_ok_iff.mpr (range row col member)

theorem checkUppers_eq_ok_iff :
    entries.forM (fun (row, col) => checkUpper size row col) = .ok () ↔
      InRange size entries ∧ IsUpper entries := by
  constructor
  · intro passed
    have each (row col : Nat) (member : (row, col) ∈ entries) :
        row ≤ col ∧ col < size :=
      checkUpper_eq_ok_iff.mp (Checked.forM_eq_ok passed _ member)
    refine ⟨fun row col member => ?_, fun row col member =>
      (each row col member).1⟩
    obtain ⟨upper, inside⟩ := each row col member
    exact ⟨Nat.lt_of_le_of_lt upper inside, inside⟩
  · rintro ⟨range, upper⟩
    exact Checked.forM_runs fun (row, col) member =>
      checkUpper_eq_ok_iff.mpr
        ⟨upper row col member, (range row col member).2⟩

theorem ofUpperEntries_eq_ok_iff :
    ofUpperEntries size entries = .ok pattern ↔
      (InRange size entries ∧ IsUpper entries) ∧
        canonicalOf size entries = pattern := by
  rw [ofUpperEntries, Checked.bind_eq_ok_iff, ← filled,
    ← checkUppers_eq_ok_iff]
  have same (passed : entries.forM (fun (row, col) =>
      checkUpper size row col) = .ok ()) :
      canonicalOf size entries = ofColumns (filled size entries).toList := by
    rw [canonicalOf, upperHalf_of_isUpper (checkUppers_eq_ok_iff.mp passed).2]
  constructor
  · rintro ⟨⟨⟩, passed, made⟩
    exact ⟨passed, (same passed).trans (Except.ok.inj made)⟩
  · rintro ⟨passed, rfl⟩
    exact ⟨(), passed, congrArg Except.ok (same passed).symm⟩

theorem checkMirrors_eq_ok_iff {above below : Array (List Nat)}
    (above_size : above.size = size) (below_size : below.size = size) :
    ((above.toList.zip below.toList).zipIdx.forM (fun ((above, below), col) =>
        if above = below then pure ()
        else throw (Flaw.unmatched (firstUnmatched col above below) col)) :
      Except Flaw Unit) = .ok () ↔ above = below := by
  constructor
  · intro passed
    refine Array.ext (above_size.trans below_size.symm)
      fun col inside inside' => ?_
    have member : ((above[col], below[col]), col) ∈
        (above.toList.zip below.toList).zipIdx := by
      rw [List.mem_zipIdx_iff_getElem?, List.getElem?_zip_eq_some]
      simp [inside, inside']
    have here := Checked.forM_eq_ok passed _ member
    by_contra differ
    dsimp only at here
    rw [if_neg differ] at here
    cases here
  · rintro rfl
    refine Checked.forM_runs fun ((up, low), col) member => ?_
    rw [List.mem_zipIdx_iff_getElem?, List.getElem?_zip_eq_some] at member
    exact if_pos (Option.some.inj (member.1.symm.trans member.2))

theorem ofFullEntries_eq_ok_iff :
    ofFullEntries size entries = .ok pattern ↔
      (InRange size entries ∧ Mirrored entries) ∧
        canonicalOf size entries = pattern := by
  rw [ofFullEntries, Checked.bind_eq_ok_iff, foldl_place]
  dsimp only
  rw [← filled, ← filled]
  constructor
  · rintro ⟨⟨⟩, passed, ran⟩
    obtain ⟨⟨⟩, compared, made⟩ := Checked.bind_eq_ok_iff.mp ran
    have range := checkRanges_eq_ok_iff.mp passed
    have same := (checkMirrors_eq_ok_iff size_filled size_filled).mp compared
    exact ⟨⟨range, (filled_halves_eq_iff range).mp same⟩, Except.ok.inj made⟩
  · rintro ⟨⟨range, mirrored⟩, rfl⟩
    refine ⟨(), checkRanges_eq_ok_iff.mpr range,
      Checked.bind_eq_ok_iff.mpr ⟨(), ?_, rfl⟩⟩
    exact (checkMirrors_eq_ok_iff size_filled size_filled).mpr
      ((filled_halves_eq_iff range).mpr mirrored)

theorem ofMatrix_eq_ok_iff {α : Type} {matrix : Sparse α} :
    ofMatrix matrix = .ok pattern ↔ matrix.rows = matrix.cols ∧
      (InRange matrix.rows matrix.coordinates ∧
        (IsUpper matrix.coordinates ∨ Mirrored matrix.coordinates)) ∧
      canonicalOf matrix.rows matrix.coordinates = pattern := by
  rw [ofMatrix]
  by_cases square : matrix.rows = matrix.cols
  · rw [if_neg (not_not_intro square), and_iff_right square]
    dsimp only
    rw [← Sparse.coordinates]
    by_cases upper : IsUpper matrix.coordinates
    · have all : matrix.coordinates.all (fun (row, col) => row ≤ col) =
          true := by
        rw [List.all_eq_true]
        rintro ⟨row, col⟩ member
        exact decide_eq_true (upper row col member)
      have either : IsUpper matrix.coordinates ∨ Mirrored matrix.coordinates :=
        .inl upper
      rw [if_pos all, ofUpperEntries_eq_ok_iff, and_iff_left upper,
        and_iff_left either]
    · have some : ¬ matrix.coordinates.all (fun (row, col) => row ≤ col) =
          true := by
        intro all
        rw [List.all_eq_true] at all
        exact upper fun row col member => of_decide_eq_true
          (all (row, col) member)
      rw [if_neg some, ofFullEntries_eq_ok_iff, or_iff_right upper]
  · rw [if_pos square]
    exact iff_of_false (by rintro ⟨⟩) fun made => square made.1

/-! What is made of coordinates. -/

/-- The pattern is what some constructor makes of the coordinates, given as a
list or as those of a matrix. -/
inductive MadeOf (pattern : Pattern) (size : Nat)
    (entries : List (Nat × Nat)) : Prop
  | upper (built : ofUpperEntries size entries = .ok pattern)
  | full (built : ofFullEntries size entries = .ok pattern)
  | matrix {α : Type} (matrix : Sparse α) (rows_eq : matrix.rows = size)
      (coordinates_eq : matrix.coordinates = entries)
      (built : ofMatrix matrix = .ok pattern)

theorem MadeOf.inRange_eq (made : pattern.MadeOf size entries) :
    InRange size entries ∧ canonicalOf size entries = pattern := by
  cases made with
  | upper built =>
      obtain ⟨⟨range, _⟩, same⟩ := ofUpperEntries_eq_ok_iff.mp built
      exact ⟨range, same⟩
  | full built =>
      obtain ⟨⟨range, _⟩, same⟩ := ofFullEntries_eq_ok_iff.mp built
      exact ⟨range, same⟩
  | matrix matrix rows_eq coordinates_eq built =>
      obtain ⟨_, ⟨range, _⟩, same⟩ := ofMatrix_eq_ok_iff.mp built
      rw [rows_eq, coordinates_eq] at range same
      exact ⟨range, same⟩

theorem MadeOf.canonical (made : pattern.MadeOf size entries) :
    pattern.Canonical size entries := by
  obtain ⟨range, rfl⟩ := made.inRange_eq
  exact canonical_canonicalOf range

theorem MadeOf.wellFormed (made : pattern.MadeOf size entries) :
    pattern.WellFormed := by
  obtain ⟨range, rfl⟩ := made.inRange_eq
  exact wellFormed_canonicalOf

/-- Only the entries on and above the diagonal count. -/
theorem MadeOf.eq (made : pattern.MadeOf size entries)
    (made' : pattern'.MadeOf size entries')
    (same : ∀ row col, row ≤ col →
      ((row, col) ∈ entries' ↔ (row, col) ∈ entries)) : pattern' = pattern := by
  refine made'.wellFormed.ext made.wellFormed
    (made'.canonical.size_eq.trans made.canonical.size_eq.symm)
    fun row col => ?_
  rw [made'.canonical.mem_entries, made.canonical.mem_entries]
  exact or_congr_left (and_congr_right fun upper => same row col upper)

/-- Coordinates of an upper triangle are accepted where all lie in range and
none below the diagonal, those of a full matrix where all lie in range and each
comes with its mirror image, and a matrix where it is square and either of the
two. Whichever way a pattern is made, it has the upper half of the coordinates
and the diagonal, is stored in canonical form, and is the only one that is made
of coordinates with that upper half. -/
theorem constructors_canonical (size : Nat) (entries : List (Nat × Nat)) :
    ((∃ pattern, ofUpperEntries size entries = .ok pattern) ↔
      InRange size entries ∧ IsUpper entries) ∧
    ((∃ pattern, ofFullEntries size entries = .ok pattern) ↔
      InRange size entries ∧ Mirrored entries) ∧
    (∀ {α : Type} (matrix : Sparse α), matrix.WellFormed →
      ((∃ pattern, ofMatrix matrix = .ok pattern) ↔
        matrix.rows = matrix.cols ∧
          (IsUpper matrix.coordinates ∨ Mirrored matrix.coordinates))) ∧
    ∀ pattern : Pattern, pattern.MadeOf size entries →
      pattern.Canonical size entries ∧
      (Mirrored entries →
        ofUpperEntries size (upperHalf entries) = .ok pattern) ∧
      ∀ entries', (∀ row col, row ≤ col →
          ((row, col) ∈ entries' ↔ (row, col) ∈ entries)) →
        ∀ pattern' : Pattern, pattern'.MadeOf size entries' →
          pattern' = pattern := by
  refine ⟨?_, ?_, fun matrix wellFormed => ?_, fun pattern made => ?_⟩
  · simp only [ofUpperEntries_eq_ok_iff, exists_eq_right']
  · simp only [ofFullEntries_eq_ok_iff, exists_eq_right']
  · simp only [ofMatrix_eq_ok_iff, ← and_assoc, exists_eq_right']
    rw [and_assoc]
    refine and_congr_right fun square => and_iff_right fun row col member => ?_
    have inside := wellFormed.coordinates_inside member
    rwa [← square] at inside
  · refine ⟨made.canonical, fun _ => ?_, fun entries' same pattern' made' =>
      made.eq made' same⟩
    obtain ⟨range, rfl⟩ := made.inRange_eq
    refine ofUpperEntries_eq_ok_iff.mpr ⟨⟨fun row col member => ?_,
      isUpper_upperHalf⟩, ?_⟩
    · exact range row col (mem_upperHalf.mp member).2
    · rw [canonicalOf, canonicalOf, upperHalf_of_isUpper isUpper_upperHalf]

theorem constructors_canonical_shuffled : ∃ pattern,
    pattern.MadeOf 3 [(2, 0), (1, 1), (0, 2), (2, 0)] ∧
      pattern.Canonical 3 [(2, 0), (1, 1), (0, 2), (2, 0)] ∧
      ofUpperEntries 3 [(1, 1), (0, 2)] = .ok pattern := by
  have law := constructors_canonical 3 [(2, 0), (1, 1), (0, 2), (2, 0)]
  have mirrored : Mirrored [(2, 0), (1, 1), (0, 2), (2, 0)] := by
    intro row col member
    simp only [List.mem_cons, Prod.mk.injEq, List.not_mem_nil, or_false] at *
    omega
  have range : InRange 3 [(2, 0), (1, 1), (0, 2), (2, 0)] := by
    intro row col member
    simp only [List.mem_cons, Prod.mk.injEq, List.not_mem_nil, or_false] at *
    omega
  obtain ⟨pattern, built⟩ := law.2.1.mpr ⟨range, mirrored⟩
  obtain ⟨canonical, half, _⟩ := law.2.2.2 pattern (.full built)
  exact ⟨pattern, .full built, canonical, half mirrored⟩

end QuasiDefinite.Pattern
