import Mathlib.Order.Bounds.Basic
import QuasiDefinite.Proofs.Pattern.Canonical

namespace QuasiDefinite.Pattern

/-- An entry without its mirror image. -/
def Unmatched (entries : List (Nat × Nat)) (row col : Nat) : Prop :=
  (row, col) ∈ entries ∧ (col, row) ∉ entries

/-- The two triangles agree in column `col` of the upper one. -/
def Matched (entries : List (Nat × Nat)) (col : Nat) : Prop :=
  ∀ row, row < col → ((row, col) ∈ entries ↔ (col, row) ∈ entries)

/-- The row that is named for a column in which the triangles differ. -/
inductive Blames (entries : List (Nat × Nat)) (row col : Nat) : Prop
  | upper (least : IsLeast {row | row < col ∧ Unmatched entries row col} row)
  | lower (matched : ∀ row, row < col → ¬ Unmatched entries row col)
      (least : IsLeast {row | row < col ∧ Unmatched entries col row} row)

variable {size row col : Nat} {entries : List (Nat × Nat)}
  {rows others : List Nat} {held held' : Nat → Prop}

theorem find?_eq_some_iff_isLeast {rows : List Nat} {wanted : Nat → Bool}
    (ascending : rows.Pairwise (· < ·)) :
    rows.find? wanted = some row ↔
      IsLeast {row | row ∈ rows ∧ wanted row} row := by
  rw [List.find?_eq_some_iff_append]
  constructor
  · rintro ⟨fits, before, after, rfl, unfit⟩
    refine ⟨⟨by simp, fits⟩, ?_⟩
    rintro other ⟨member, fits'⟩
    rw [List.pairwise_append, List.pairwise_cons] at ascending
    rcases List.mem_append.mp member with early | late
    · have := unfit other early
      rw [fits'] at this
      cases this
    · rcases List.mem_cons.mp late with rfl | late
      · exact Nat.le_refl _
      · exact Nat.le_of_lt (ascending.2.1.1 other late)
  · rintro ⟨⟨member, fits⟩, least⟩
    obtain ⟨before, after, rfl⟩ := List.append_of_mem member
    rw [List.pairwise_append] at ascending
    refine ⟨fits, before, after, rfl, fun other early => ?_⟩
    have below := ascending.2.2 other early row (List.mem_cons_self ..)
    by_contra fits'
    have fits' : wanted other = true := by simpa using fits'
    exact absurd (least ⟨List.mem_append_left _ early, fits'⟩)
      (Nat.not_le.mpr below)

/-! One column of a triangle. -/

/-- The rows are the diagonal and those above it that are held. -/
structure Retains (col : Nat) (held : Nat → Prop) (rows : List Nat) :
    Prop where
  ascending : rows.Pairwise (· < ·)
  mem_iff : ∀ row, row ∈ rows ↔ row = col ∨ row < col ∧ held row

theorem retains_filled (upper : IsUpper entries)
    (listed : (filled size entries)[col]? = some rows) :
    Retains col (fun row => (row, col) ∈ entries) rows := by
  obtain ⟨inside, _⟩ := Array.getElem?_eq_some_iff.mp listed
  rw [size_filled] at inside
  refine ⟨(areColumns_filled upper col rows (by simpa using listed)).1,
    fun row => ?_⟩
  have member : row ∈ rows ↔ Lists (filled size entries) row col := by
    simp [Lists, listed]
  rw [member, lists_filled, and_iff_left inside]
  constructor
  · rintro (stored | same)
    · exact (Nat.lt_or_eq_of_le (upper row col stored)).elim
        (fun above => .inr ⟨above, stored⟩) .inl
    · exact .inl same
  · rintro (same | ⟨_, stored⟩)
    · exact .inr same
    · exact .inl stored

namespace Retains

theorem congr (retains : Retains col held rows)
    (same : ∀ row, row < col → (held row ↔ held' row)) :
    Retains col held' rows :=
  ⟨retains.ascending, fun row => (retains.mem_iff row).trans
    (or_congr_right (and_congr_right (same row)))⟩

theorem mem_only_iff (left : Retains col held rows)
    (right : Retains col held' others) :
    row ∈ rows ∧ (! others.contains row) = true ↔
      row < col ∧ held row ∧ ¬ held' row := by
  rw [Bool.not_eq_true', ← Bool.not_eq_true, List.contains_iff_mem,
    left.mem_iff, right.mem_iff]
  constructor
  · rintro ⟨same | ⟨above, stored⟩, missing⟩
    · exact absurd (.inl same) missing
    · exact ⟨above, stored, fun stored' => missing (.inr ⟨above, stored'⟩)⟩
  · rintro ⟨above, stored, missing⟩
    refine ⟨.inr ⟨above, stored⟩, ?_⟩
    rintro (same | ⟨_, stored'⟩)
    · exact Nat.ne_of_lt above same
    · exact missing stored'

theorem find?_eq_some_iff (left : Retains col held rows)
    (right : Retains col held' others) :
    rows.find? (! others.contains ·) = some row ↔
      IsLeast {row | row < col ∧ held row ∧ ¬ held' row} row := by
  rw [find?_eq_some_iff_isLeast left.ascending]
  simp only [left.mem_only_iff right]

theorem find?_eq_none_iff (left : Retains col held rows)
    (right : Retains col held' others) :
    rows.find? (! others.contains ·) = none ↔
      ∀ row, row < col → ¬ (held row ∧ ¬ held' row) := by
  rw [List.find?_eq_none]
  refine forall_congr' fun row => ?_
  rw [← not_and, ← not_and, left.mem_only_iff right]

theorem eq_iff (left : Retains col held rows)
    (right : Retains col held' others) :
    rows = others ↔ ∀ row, row < col → (held row ↔ held' row) := by
  constructor
  · rintro rfl row above
    have member := (left.mem_iff row).symm.trans (right.mem_iff row)
    rwa [or_iff_right (Nat.ne_of_lt above), or_iff_right (Nat.ne_of_lt above),
      and_iff_right above, and_iff_right above] at member
  · intro same
    exact List.Pairwise.eq_of_mem_iff left.ascending right.ascending fun row =>
      ((left.congr same).mem_iff row).trans (right.mem_iff row).symm

end Retains

theorem retains_upperHalf
    (listed : (filled size (upperHalf entries))[col]? = some rows) :
    Retains col (fun row => (row, col) ∈ entries) rows :=
  (retains_filled isUpper_upperHalf listed).congr fun _ above =>
    mem_upperHalf.trans (and_iff_right (Nat.le_of_lt above))

theorem retains_lowerHalf
    (listed : (filled size (lowerHalf entries))[col]? = some rows) :
    Retains col (fun row => (col, row) ∈ entries) rows :=
  (retains_filled isUpper_lowerHalf listed).congr fun _ above =>
    mem_lowerHalf.trans (and_iff_right above)

theorem firstUnmatched_eq_iff
    (upper : Retains col (fun row => (row, col) ∈ entries) rows)
    (lower : Retains col (fun row => (col, row) ∈ entries) others)
    (differ : rows ≠ others) :
    firstUnmatched col rows others = row ↔ Blames entries row col := by
  rw [firstUnmatched]
  cases first : rows.find? (! others.contains ·) with
  | some named =>
      rw [Option.some_or, Option.getD_some]
      have least := (upper.find?_eq_some_iff lower).mp first
      constructor
      · rintro rfl
        exact .upper least
      · intro blames
        cases blames with
        | upper least' => exact least.unique least'
        | lower matched _ =>
            exact absurd least.1.2 (matched named least.1.1)
  | none =>
      rw [Option.none_or]
      have matched := (upper.find?_eq_none_iff lower).mp first
      cases second : others.find? (! rows.contains ·) with
      | some named =>
          rw [Option.getD_some]
          have least := (lower.find?_eq_some_iff upper).mp second
          constructor
          · rintro rfl
            exact .lower matched least
          · intro blames
            cases blames with
            | upper least' => exact absurd least'.1.2 (matched row least'.1.1)
            | lower _ least' => exact least.unique least'
      | none =>
          have matched' := (lower.find?_eq_none_iff upper).mp second
          refine absurd ((upper.eq_iff lower).mpr fun row above => ?_) differ
          constructor
          · intro stored
            by_contra missing
            exact matched row above ⟨stored, missing⟩
          · intro stored
            by_contra missing
            exact matched' row above ⟨stored, missing⟩

/-! The first column that differs. -/

theorem getElem?_columnPairs {left right : Array (List Nat)} {place : Nat} :
    (left.toList.zip right.toList).zipIdx[col]? =
        some ((rows, others), place) ↔
      col = place ∧ left[col]? = some rows ∧ right[col]? = some others := by
  rw [List.getElem?_zipIdx, Option.map_eq_some_iff]
  constructor
  · rintro ⟨pair, found, same⟩
    obtain ⟨rfl, rfl⟩ := Prod.mk.inj same
    obtain ⟨found, found'⟩ := List.getElem?_zip_eq_some.mp found
    exact ⟨(Nat.zero_add col).symm, by simpa using found, by simpa using found'⟩
  · rintro ⟨rfl, found, found'⟩
    exact ⟨(rows, others), List.getElem?_zip_eq_some.mpr
      ⟨by simpa using found, by simpa using found'⟩, by rw [Nat.zero_add]⟩

theorem exists_columnPair (inside : col < size) : ∃ above below,
    ((filled size (upperHalf entries)).toList.zip
        (filled size (lowerHalf entries)).toList).zipIdx[col]? =
      some ((above, below), col) ∧ (above = below ↔ Matched entries col) := by
  have listed := Array.getElem?_eq_getElem
    (show col < (filled size (upperHalf entries)).size by rwa [size_filled])
  have listed' := Array.getElem?_eq_getElem
    (show col < (filled size (lowerHalf entries)).size by rwa [size_filled])
  exact ⟨_, _, getElem?_columnPairs.mpr ⟨rfl, listed, listed'⟩,
    (retains_upperHalf listed).eq_iff (retains_lowerHalf listed')⟩

theorem Blames.not_matched (blames : Blames entries row col) :
    ¬ Matched entries col := by
  intro matched
  cases blames with
  | upper least =>
      exact least.1.2.2 ((matched row least.1.1).mp least.1.2.1)
  | lower _ least =>
      exact least.1.2.2 ((matched row least.1.1).mpr least.1.2.1)

theorem checkMirrors_eq_error_iff {flaw : Flaw} :
    (((filled size (upperHalf entries)).toList.zip
          (filled size (lowerHalf entries)).toList).zipIdx.forM
        (fun ((above, below), col) =>
          if above = below then pure ()
          else throw (Flaw.unmatched (firstUnmatched col above below) col)) :
      Except Flaw Unit) = .error flaw ↔
      ∃ row col, flaw = .unmatched row col ∧ col < size ∧
        (∀ earlier, earlier < col → Matched entries earlier) ∧
          Blames entries row col := by
  rw [Checked.forM_eq_error_iff]
  constructor
  · rintro ⟨col, ⟨⟨above, below⟩, place⟩, found, failed, passed⟩
    obtain ⟨rfl, listed, listed'⟩ := getElem?_columnPairs.mp found
    obtain ⟨inside, _⟩ := Array.getElem?_eq_some_iff.mp listed
    rw [size_filled] at inside
    dsimp only at failed
    have differ : above ≠ below := fun same => by
      rw [if_pos same] at failed
      cases failed
    rw [if_neg differ] at failed
    refine ⟨_, col, (Except.error.inj failed).symm, inside,
      fun earlier before => ?_, (firstUnmatched_eq_iff
        (retains_upperHalf listed) (retains_lowerHalf listed') differ).mp
        rfl⟩
    obtain ⟨above', below', found', matched⟩ :=
      exists_columnPair (Nat.lt_trans before inside)
    have alike := passed earlier _ before found'
    dsimp only at alike
    by_contra unlike
    rw [if_neg (mt matched.mp unlike)] at alike
    cases alike
  · rintro ⟨row, col, rfl, inside, matched, blames⟩
    obtain ⟨above, below, found, alike⟩ := exists_columnPair inside
    have differ := mt alike.mp blames.not_matched
    obtain ⟨_, listed, listed'⟩ := getElem?_columnPairs.mp found
    have named := (firstUnmatched_eq_iff (retains_upperHalf listed)
      (retains_lowerHalf listed') differ).mpr blames
    refine ⟨col, _, found, ?_, ?_⟩
    · dsimp only
      rw [if_neg differ, named]
      rfl
    · rintro earlier ⟨⟨above', below'⟩, place⟩ before found'
      obtain ⟨rfl, _⟩ := getElem?_columnPairs.mp found'
      obtain ⟨_, _, same, alike'⟩ :=
        @exists_columnPair size earlier entries (Nat.lt_trans before inside)
      cases found'.symm.trans same
      exact if_pos (alike'.mpr (matched earlier before))

/-- Of coordinates in range, those that are not symmetric are refused, and no
others. The refusal names the first column in which the triangles differ and
the first row that is unmatched there. -/
theorem ofFullEntries_blames (range : InRange size entries) :
    ((∃ flaw, ofFullEntries size entries = .error flaw) ↔
      ¬ Mirrored entries) ∧
    ∀ flaw, ofFullEntries size entries = .error flaw ↔
      ∃ row col, flaw = .unmatched row col ∧ col < size ∧
        (∀ earlier, earlier < col → Matched entries earlier) ∧
          Blames entries row col := by
  constructor
  · have made := @ofFullEntries_eq_ok_iff size entries
      (canonicalOf size entries)
    rw [and_iff_right range, and_iff_left rfl] at made
    rw [← made]
    cases built : ofFullEntries size entries with
    | error flaw => exact iff_of_true ⟨flaw, rfl⟩ nofun
    | ok pattern =>
        obtain ⟨_, same⟩ := ofFullEntries_eq_ok_iff.mp built
        exact iff_of_false (by rintro ⟨_, ⟨⟩⟩) fun differ =>
          differ (congrArg Except.ok same.symm)
  · intro flaw
    rw [← checkMirrors_eq_error_iff, ofFullEntries,
      checkRanges_eq_ok_iff.mpr range, Checked.ok_bind, foldl_place]
    dsimp only
    rw [← filled, ← filled]
    exact Checked.bind_ok_eq_error_iff

/-- Two entries lack their mirror images, one on each side of the diagonal. In
column 3 the one above it is named, although its row is the second of the two
in which the triangles differ. -/
theorem ofFullEntries_blames_upper :
    InRange 4 [(0, 1), (1, 0), (3, 0), (1, 3)] ∧
      ofFullEntries 4 [(0, 1), (1, 0), (3, 0), (1, 3)] =
        .error (.unmatched 1 3) := by
  have range : InRange 4 [(0, 1), (1, 0), (3, 0), (1, 3)] := by
    intro row col member
    simp only [List.mem_cons, Prod.mk.injEq, List.not_mem_nil, or_false] at *
    omega
  refine ⟨range, ((ofFullEntries_blames range).2 _).mpr
    ⟨1, 3, rfl, by decide, ?_, .upper ⟨?_, ?_⟩⟩⟩
  · intro earlier before row above
    simp only [List.mem_cons, Prod.mk.injEq, List.not_mem_nil, or_false]
    omega
  · exact ⟨by decide, by decide, by decide⟩
  · rintro row ⟨_, stored, _⟩
    simp only [List.mem_cons, Prod.mk.injEq, List.not_mem_nil, or_false]
      at stored
    omega

/-- An entry below the diagonal without its mirror image is reported under the
coordinates of that image, which nothing has named. -/
theorem ofFullEntries_blames_absent :
    ¬ ∀ (size : Nat) (entries : List (Nat × Nat)) (row col : Nat),
      InRange size entries →
        ofFullEntries size entries = .error (.unmatched row col) →
          Unmatched entries row col := by
  intro truthful
  have refused : ofFullEntries 2 [(1, 0)] = .error (.unmatched 0 1) := by
    cbv
  have range : InRange 2 [(1, 0)] := by
    intro row col member
    simp only [List.mem_singleton, Prod.mk.injEq] at member
    omega
  have unmatched := truthful 2 [(1, 0)] 0 1 range refused
  exact absurd unmatched.1 (by decide)

end QuasiDefinite.Pattern
