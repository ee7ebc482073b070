import QuasiDefinite.Elimination.Rows
import QuasiDefinite.Proofs.Compressed
import QuasiDefinite.Proofs.Elimination.Tree

namespace QuasiDefinite.Elimination

variable {adjacent : Nat → Nat → Prop} {size row : Nat}

/-- A walk in row `row` that is about to look at `node`. The nodes it has met
are closed under climbing, except that the climb still has to go on from
`node`. -/
structure Walk.Reaches (adjacent : Nat → Nat → Prop) (size row : Nat)
    (walk : Walk) (node : Nat) : Prop where
  size_eq : walk.metBy.size = size
  marks_le : ∀ i other : Nat, walk.metBy[i]? = some (some other) →
    other ≤ row
  met_iff : ∀ i : Nat, i < size →
    (walk.metBy[i]? = some (some row) ↔ i = row ∨ i ∈ walk.cols)
  nodup : walk.cols.Nodup
  fill : ∀ col ∈ walk.cols, Fill adjacent col row
  closed : ∀ col ∈ walk.cols, ∀ next, IsParent adjacent col next →
    next = node ∨ next = row ∨ next ∈ walk.cols

namespace Walk.Reaches

variable {walk : Walk} {node : Nat}

theorem mark (reaches : walk.Reaches adjacent size row node)
    (inside : node < size) (fill : Fill adjacent node row)
    (fresh : walk.metBy[node]? ≠ some (some row)) {next : Nat}
    (parent : IsParent adjacent node next) :
    Reaches adjacent size row
      ⟨walk.metBy.setIfInBounds node (some row), node :: walk.cols⟩ next where
  size_eq := by simpa using reaches.size_eq
  marks_le := by
    intro i other found
    rw [Array.getElem?_setIfInBounds] at found
    split at found
    · split at found
      · simp only [Option.some.injEq] at found
        exact Nat.le_of_eq found.symm
      · simp at found
    · exact reaches.marks_le i other found
  met_iff := by
    intro i insideI
    rw [List.mem_cons]
    by_cases same : node = i
    · subst same
      rw [Array.getElem?_setIfInBounds_self_of_lt
        (by rwa [reaches.size_eq])]
      simp
    · rw [Array.getElem?_setIfInBounds_ne same, reaches.met_iff i insideI]
      simp [Ne.symm same]
  nodup := by
    rw [List.nodup_cons]
    refine ⟨fun met => fresh ?_, reaches.nodup⟩
    exact (reaches.met_iff node inside).mpr (.inr met)
  fill := by
    intro col member
    rcases List.mem_cons.mp member with rfl | member
    · exact fill
    · exact reaches.fill col member
  closed := by
    intro col member other isParent
    rcases List.mem_cons.mp member with rfl | member
    · exact .inl (isParent.unique parent)
    · rcases reaches.closed col member other isParent with rfl | same | met
      · exact .inr (.inr (List.mem_cons_self ..))
      · exact .inr (.inl same)
      · exact .inr (.inr (List.mem_cons_of_mem _ met))

theorem stop (reaches : walk.Reaches adjacent size row node)
    (met : node = row ∨ node ∈ walk.cols) :
    walk.Reaches adjacent size row row := by
  refine { reaches with closed := ?_ }
  intro col member next parent
  rcases reaches.closed col member next parent with rfl | same | met'
  · exact .inr met
  · exact .inl same
  · exact .inr (.inr met')

theorem mem_of_climbs (reaches : walk.Reaches adjacent size row row)
    {start col : Nat} (met : start ∈ walk.cols)
    (climbs : Climbs adjacent start col) (below : col < row) :
    col ∈ walk.cols := by
  induction climbs with
  | refl => exact met
  | @tail low high _ parent ih =>
      have met := ih (Nat.lt_trans parent.lt below)
      rcases reaches.closed low met high parent with rfl | rfl | met
      · exact absurd below (Nat.lt_irrefl _)
      · exact absurd below (Nat.lt_irrefl _)
      · exact met

end Walk.Reaches

theorem Walk.climb_runs {parent : Array (Option Nat)}
    (parents : Parents adjacent size parent) (inside : row < size)
    {walk : Walk} {node : Nat} (reaches : walk.Reaches adjacent size row node)
    (member : node = row ∨ Fill adjacent node row) :
    ∃ new, Walk.climb parent row walk node = .ok new ∧
      new.Reaches adjacent size row row ∧
      (∀ col ∈ walk.cols, col ∈ new.cols) ∧
      (node = row ∨ node ∈ new.cols) := by
  have insideNode : node < size := by
    rcases member with rfl | fill
    · exact inside
    · exact Nat.lt_trans fill.lt inside
  have insideMarks : node < walk.metBy.size := by rwa [reaches.size_eq]
  rw [Walk.climb, dif_pos insideMarks]
  split
  · next met =>
    have visited := (reaches.met_iff node insideNode).mp
      (Array.getElem?_eq_some_iff.mpr ⟨insideMarks, met⟩)
    exact ⟨walk, rfl, reaches.stop visited, fun _ member => member, visited⟩
  · next unmet =>
    have fresh : walk.metBy[node]? ≠ some (some row) := by
      intro found
      exact unmet (Array.getElem?_eq_some_iff.mp found).2
    have notRow : node ≠ row := by
      intro same
      exact fresh ((reaches.met_iff node insideNode).mpr (.inl same))
    have fill : Fill adjacent node row := member.resolve_left notRow
    obtain ⟨next, isParent, le⟩ := fill.exists_parent
    have above : node < next := isParent.lt
    have found : Checked.get parent node = .ok (some next) :=
      Checked.get_eq_ok_iff.mpr
        (parents.complete node next (Nat.lt_of_le_of_lt le inside) isParent)
    have marked := reaches.mark insideNode fill fresh isParent
    have member' : next = row ∨ Fill adjacent next row :=
      (fill.of_parent isParent)
    obtain ⟨new, ran, reaches', keeps, _⟩ :=
      Walk.climb_runs parents inside marked member'
    rw [found, Checked.ok_bind]
    dsimp only
    rw [dif_pos above, Checked.set_eq_setIfInBounds insideMarks, ran]
    refine ⟨new, rfl, reaches', ?_, .inr ?_⟩
    · intro col met
      exact keeps col (List.mem_cons_of_mem _ met)
    · exact keeps node (List.mem_cons_self ..)
termination_by size - node

def IsRow (adjacent : Nat → Nat → Prop) (row : Nat) (cols : List Nat) : Prop :=
  cols.Pairwise (· < ·) ∧ ∀ col, col ∈ cols ↔ Fill adjacent col row

/-- The columns of the rows found so far. Marks are rows that are done. -/
structure RowsSoFar.Holds (adjacent : Nat → Nat → Prop) (size row : Nat)
    (state : RowsSoFar) : Prop where
  size_eq : state.metBy.size = size
  marks_lt : ∀ i other : Nat, state.metBy[i]? = some (some other) →
    other < row
  rows : ∃ rows : List (List Nat), state.rows = .ofLists rows ∧
    rows.length = row ∧ ∀ (k : Nat) (cols : List Nat),
      rows[k]? = some cols → IsRow adjacent k cols

theorem isRow_mergeSort {cols : List Nat} (nodup : cols.Nodup)
    (mem : ∀ col, col ∈ cols ↔ Fill adjacent col row) :
    IsRow adjacent row cols.mergeSort := by
  have sorted : cols.mergeSort.Pairwise (· ≤ ·) := by
    have sorted := @List.pairwise_mergeSort Nat (fun i k => decide (i ≤ k))
      (by simpa using fun _ _ _ => Nat.le_trans)
      (by simpa using Nat.le_total) cols
    simpa using sorted
  have nodup' : cols.mergeSort.Nodup :=
    (List.mergeSort_perm cols _).nodup_iff.mpr nodup
  refine ⟨?_, fun col => ?_⟩
  · exact sorted.imp₂ (fun _ _ le ne => Nat.lt_of_le_of_ne le ne) nodup'
  · rw [(List.mergeSort_perm cols _).mem_iff]
    exact mem col

theorem RowsSoFar.Holds.openRow {state : RowsSoFar}
    (holds : state.Holds adjacent size row) :
    Walk.Reaches adjacent size row
      ⟨state.metBy.setIfInBounds row (some row), []⟩ row where
  size_eq := by simpa using holds.size_eq
  marks_le := by
    intro i other found
    rw [Array.getElem?_setIfInBounds] at found
    split at found
    · split at found
      · simp only [Option.some.injEq] at found
        exact Nat.le_of_eq found.symm
      · simp at found
    · exact Nat.le_of_lt (holds.marks_lt i other found)
  met_iff := by
    intro i insideI
    by_cases same : row = i
    · subst same
      rw [Array.getElem?_setIfInBounds_self_of_lt (by rwa [holds.size_eq])]
      simp
    · rw [Array.getElem?_setIfInBounds_ne same]
      have unmet : state.metBy[i]? ≠ some (some row) := fun found =>
        Nat.lt_irrefl row (holds.marks_lt i row found)
      simp [unmet, Ne.symm same]
  nodup := .nil
  fill := by simp
  closed := by simp

theorem Walk.foldlM_climb_runs {parent : Array (Option Nat)}
    (parents : Parents adjacent size parent) (inside : row < size)
    {starts : List Nat} {walk : Walk}
    (start : ∀ node ∈ starts, node = row ∨ Fill adjacent node row)
    (reaches : walk.Reaches adjacent size row row) :
    ∃ final, starts.foldlM (Walk.climb parent row) walk = .ok final ∧
      final.Reaches adjacent size row row ∧
      ∀ node ∈ starts, node = row ∨ node ∈ final.cols := by
  obtain ⟨final, ran, reaches, met⟩ :=
    @Checked.foldlM_runs _ _ _ (Walk.climb parent row) starts
      (fun done walk => walk.Reaches adjacent size row row ∧
        ∀ node ∈ done, node = row ∨ node ∈ walk.cols)
      walk ⟨reaches, by simp⟩ (by
        rintro done node rest walk split ⟨reaches, met⟩
        have reaches' : walk.Reaches adjacent size row node :=
          { reaches with
            closed := fun col member next parent =>
              .inr (or_self_left.mp (reaches.closed col member next parent)) }
        obtain ⟨new, ran, reaches', keeps, reached⟩ := Walk.climb_runs parents
          inside reaches' (start node (by simp [split]))
        refine ⟨new, ran, reaches', ?_⟩
        intro other member
        cases List.mem_append.mp member with
        | inl old => exact (met other old).imp_right (keeps other)
        | inr last =>
            rw [List.mem_singleton.mp last]
            exact reached)
  exact ⟨final, ran, reaches, met⟩

theorem RowsSoFar.Holds.next {state : RowsSoFar} {walk : Walk}
    (holds : state.Holds adjacent size row)
    (reaches : walk.Reaches adjacent size row row)
    (mem : ∀ col, col ∈ walk.cols ↔ Fill adjacent col row) :
    RowsSoFar.Holds adjacent size (row + 1)
      ⟨walk.metBy, state.rows.push walk.cols.mergeSort⟩ where
  size_eq := reaches.size_eq
  marks_lt i other found := Nat.lt_succ_of_le (reaches.marks_le i other found)
  rows := by
    obtain ⟨rows, stored, length_eq, isRow⟩ := holds.rows
    refine ⟨rows ++ [walk.cols.mergeSort], ?_, by simp [length_eq], ?_⟩
    · rw [stored, Compressed.push_ofLists]
    · intro k cols found
      rw [List.getElem?_append] at found
      split at found
      · exact isRow k cols found
      · next past =>
        rw [length_eq] at past found
        rw [List.getElem?_singleton] at found
        split at found
        · next zero =>
          obtain rfl : k = row := by omega
          rw [← Option.some.inj found]
          exact isRow_mergeSort reaches.nodup mem
        · cases found

/-- The walk of a row meets the columns of the factor in that row. -/
theorem RowsSoFar.Holds.walk_runs {upper : Compressed}
    (columns : UpperColumns adjacent size upper)
    {parent : Array (Option Nat)} (parents : Parents adjacent size parent)
    {state : RowsSoFar} (holds : state.Holds adjacent size row)
    (inside : row < size) :
    ∃ starts walk, upper.list row = .ok starts ∧
      starts.foldlM (Walk.climb parent row)
        ⟨state.metBy.setIfInBounds row (some row), []⟩ = .ok walk ∧
      walk.Reaches adjacent size row row ∧
      (∀ col, col ∈ walk.cols ↔ Fill adjacent col row) ∧
      ∀ start ∈ starts, start = row ∨ start ∈ walk.cols := by
  obtain ⟨starts, listed, mem_starts⟩ := columns row inside
  have started : ∀ node ∈ starts, node = row ∨ Fill adjacent node row := by
    intro node listed
    cases (mem_starts node).mp listed with
    | inl same => exact .inl same
    | inr entry => exact .inr (.entry entry.1 entry.2)
  obtain ⟨walk, ran, reaches, met⟩ :=
    Walk.foldlM_climb_runs parents inside started holds.openRow
  refine ⟨starts, walk, listed, ran, reaches, fun col => ?_, met⟩
  refine ⟨reaches.fill col, fun fill => ?_⟩
  obtain ⟨below, start, small, present, climbs⟩ := fill_iff_climbs.mp fill
  have first : start ∈ walk.cols :=
    (met start ((mem_starts start).mpr (.inr ⟨small, present⟩))).resolve_left
      (Nat.ne_of_lt small)
  exact reaches.mem_of_climbs first climbs below

theorem RowsSoFar.add_runs {upper : Compressed}
    (columns : UpperColumns adjacent size upper)
    {parent : Array (Option Nat)} (parents : Parents adjacent size parent)
    {state : RowsSoFar} (holds : state.Holds adjacent size row)
    (inside : row < size) :
    ∃ new, RowsSoFar.add upper parent state row = .ok new ∧
      new.Holds adjacent size (row + 1) := by
  obtain ⟨starts, walk, listed, ran, reaches, mem, _⟩ :=
    holds.walk_runs columns parents inside
  have insideMarks : row < state.metBy.size := by rwa [holds.size_eq]
  refine ⟨_, ?_, holds.next reaches mem⟩
  rw [RowsSoFar.add]
  dsimp only
  rw [Checked.set_eq_ok_iff.mpr ⟨insideMarks, rfl⟩, Checked.ok_bind, listed,
    Checked.ok_bind, ran]
  rfl

theorem RowsSoFar.holds_empty : RowsSoFar.Holds adjacent size 0
    ⟨.replicate size none, .empty⟩ where
  size_eq := Array.size_replicate
  marks_lt i other found := by
    simp [Array.getElem?_replicate] at found
  rows := ⟨[], rfl, rfl, by simp⟩

theorem RowsSoFar.foldlM_add_runs {upper : Compressed}
    (columns : UpperColumns adjacent size upper)
    {parent : Array (Option Nat)} (parents : Parents adjacent size parent)
    {count : Nat} (le : count ≤ size) :
    ∃ state, (List.range count).foldlM (RowsSoFar.add upper parent)
        ⟨.replicate size none, .empty⟩ = .ok state ∧
      state.Holds adjacent size count :=
  Checked.foldlM_range_runs (RowsSoFar.Holds adjacent size) holds_empty
    fun _ _ inside holds => RowsSoFar.add_runs columns parents holds
      (Nat.lt_of_lt_of_le inside le)

theorem rowColumns_runs {upper : Compressed}
    (columns : UpperColumns adjacent size upper)
    {parent : Array (Option Nat)} (parents : Parents adjacent size parent) :
    ∃ rows, rowColumns size upper parent = .ok (.ofLists rows) ∧
      rows.length = size ∧
      ∀ (row : Nat) (cols : List Nat), rows[row]? = some cols →
        IsRow adjacent row cols := by
  obtain ⟨state, ran, holds⟩ :=
    RowsSoFar.foldlM_add_runs columns parents (Nat.le_refl size)
  obtain ⟨rows, stored, found⟩ := holds.rows
  refine ⟨rows, ?_, found⟩
  rw [rowColumns, ran, ← stored]
  rfl

end QuasiDefinite.Elimination
