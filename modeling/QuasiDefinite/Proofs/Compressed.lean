import QuasiDefinite.Compressed
import QuasiDefinite.Proofs.Checked

namespace QuasiDefinite

theorem span_self (first : Nat) : span first first = [] := by
  simp [span]

theorem span_succ_right {first last : Nat} (le : first ≤ last) :
    span first (last + 1) = span first last ++ [last] := by
  have grows : last + 1 - first = last - first + 1 := by omega
  rw [span, grows, List.range'_concat]
  simp [span, Nat.add_sub_cancel' le]

theorem span_add (first count : Nat) :
    span first (first + count) = (List.range count).map (first + ·) := by
  rw [span, Nat.add_sub_cancel_left, List.range'_eq_map_range]

namespace Compressed

variable {lists : List (List Nat)} {k : Nat}

def base (lists : List (List Nat)) (k : Nat) : Nat :=
  total ((lists.map List.length).take k)

@[simp] theorem base_zero : base lists 0 = 0 :=
  rfl

theorem base_succ {list : List Nat} (found : lists[k]? = some list) :
    base lists (k + 1) = base lists k + list.length := by
  obtain ⟨inside, rfl⟩ := List.getElem?_eq_some_iff.mp found
  rw [base, List.take_succ_eq_append_getElem (by simpa), total_append]
  simp [total, base]

theorem base_length : base lists lists.length = lists.flatten.length := by
  rw [base, ← total_map_length, List.take_of_length_le (by simp)]

theorem base_mono {other : Nat} (le : k ≤ other) :
    base lists k ≤ base lists other := by
  have prefix' : (lists.map List.length).take k =
      ((lists.map List.length).take other).take k := by
    rw [List.take_take, Nat.min_eq_left le]
  have split := total_append (((lists.map List.length).take other).take k)
    (((lists.map List.length).take other).drop k)
  rw [List.take_append_drop] at split
  rw [base, base, prefix']
  omega

theorem size_start : (ofLists lists).start.size = lists.length + 1 := by
  simp [ofLists, length_offsets]

theorem size_index : (ofLists lists).index.size = base lists lists.length := by
  rw [base_length]
  simp [ofLists]

theorem start_ofLists (inside : k ≤ lists.length) :
    (ofLists lists).start[k]? = some (base lists k) := by
  rw [ofLists, List.getElem?_toArray, getElem?_offsets (by simpa using inside),
    Nat.zero_add, base]

theorem get_start (inside : k ≤ lists.length) :
    Checked.get (ofLists lists).start k = .ok (base lists k) :=
  Checked.get_eq_ok_iff.mpr (start_ofLists inside)

def toLists (family : Compressed) : List (List Nat) :=
  (List.range (family.start.size - 1)).map fun k =>
    (family.list k).toOption.getD []

theorem toLists_ofLists (given : List (List Nat)) :
    (ofLists given).toLists = given := by
  apply List.ext_getElem?
  intro k
  rw [toLists, size_start, Nat.add_sub_cancel, List.getElem?_map]
  by_cases inside : k < given.length
  · rw [List.getElem?_range inside, List.getElem?_eq_getElem inside,
      Option.map_some, list_ofLists (List.getElem?_eq_getElem inside)]
    rfl
  · rw [List.getElem?_eq_none (by simpa using inside),
      List.getElem?_eq_none (by simpa using inside), Option.map_none]

theorem push_ofLists (given : List (List Nat)) (list : List Nat) :
    (ofLists given).push list = ofLists (given ++ [list]) := by
  have index : (ofLists given).index ++ list =
      (ofLists (given ++ [list])).index := by
    simp [ofLists]
  have size : (ofLists (given ++ [list])).index.size =
      base (given ++ [list]) (given.length + 1) := by
    rw [size_index, List.length_append, List.length_singleton]
  have start : (ofLists given).start.push
      (ofLists (given ++ [list])).index.size =
        (ofLists (given ++ [list])).start := by
    refine @Checked.ext_of_size _ (given.length + 2) _ _
      (by simp [size_start]) (by simp [size_start]) fun k inside => ?_
    rw [start_ofLists (by simp; omega), Array.getElem?_push, size_start]
    split
    · next last => rw [last, size]
    · rw [start_ofLists (by omega), base, base, List.map_append,
        List.take_append_of_le_length (by simp; omega)]
  rw [push, index, start]

/-! The starts, as they are computed. -/

theorem counts_runs {owners : List Nat} {size : Nat}
    (small : ∀ owner ∈ owners, owner < size) :
    ∃ counts, owners.foldlM
        (fun counts owner => Checked.modify counts (owner + 1) (· + 1))
        (Array.replicate (size + 1) 0) = .ok counts ∧
      counts.size = size + 1 ∧ counts[0]? = some 0 ∧
      ∀ k, k < size → counts[k + 1]? = some (owners.count k) := by
  apply Checked.foldlM_runs fun done (counts : Array Nat) =>
    counts.size = size + 1 ∧ counts[0]? = some 0 ∧
      ∀ k, k < size → counts[k + 1]? = some (done.count k)
  · simp +contextual
  · intro done owner rest counts split ⟨counts_size, first, counted⟩
    have inside := small owner (by simp [split])
    refine ⟨_, Checked.modify_eq_ok_iff.mpr ⟨by omega, rfl⟩, ?_, ?_, ?_⟩
    · rwa [Array.size_modify]
    · simp [Array.getElem?_modify, first]
    · intro k insideK
      rw [Array.getElem?_modify, counted k insideK, List.count_append,
        List.count_singleton]
      by_cases same : owner = k <;> simp [same]

/-- The counts up to `done` are summed up, those behind it as they were. -/
structure Summed (lists : List (List Nat)) (counts : Array Nat) (done : Nat)
    (starts : Array Nat) : Prop where
  size_eq : starts.size = lists.length + 1
  sums : ∀ k, k ≤ done → starts[k]? = some (base lists k)
  rest : ∀ k, done ≤ k → starts[k + 1]? = counts[k + 1]?

theorem Summed.next {counts starts : Array Nat} {done : Nat} {list : List Nat}
    (summed : Summed lists counts done starts)
    (found : lists[done]? = some list)
    (counted : counts[done + 1]? = some list.length) :
    ∃ next, (do
        let before ← Checked.get starts done
        Checked.modify starts (done + 1) (· + before)) = .ok next ∧
      Summed lists counts (done + 1) next := by
  have inside := (List.getElem?_eq_some_iff.mp found).1
  have size_eq := summed.size_eq
  rw [Checked.get_eq_ok_iff.mpr (summed.sums done (Nat.le_refl _)),
    Checked.ok_bind]
  refine ⟨_, Checked.modify_eq_ok_iff.mpr ⟨by omega, rfl⟩, ?_, ?_, ?_⟩
  · rwa [Array.size_modify]
  · intro k le
    rw [Array.getElem?_modify]
    split
    · next last =>
      subst last
      rw [summed.rest done (Nat.le_refl _), base_succ found, counted,
        Option.map_some, Nat.add_comm]
    · exact summed.sums k (by omega)
  · intro k le
    rw [Array.getElem?_modify, if_neg (by omega)]
    exact summed.rest k (by omega)

theorem sums_runs {counts : Array Nat}
    (counts_size : counts.size = lists.length + 1)
    (first : counts[0]? = some 0)
    (counted : ∀ (k : Nat) (list : List Nat), lists[k]? = some list →
      counts[k + 1]? = some list.length) :
    (List.range lists.length).foldlM
        (fun starts k => do
          let before ← Checked.get starts k
          Checked.modify starts (k + 1) (· + before))
        counts = .ok (ofLists lists).start := by
  have start : Summed lists counts 0 counts := by
    refine ⟨counts_size, ?_, fun _ _ => rfl⟩
    intro k le
    rw [Nat.le_zero.mp le]
    exact first
  obtain ⟨starts, ran, summed⟩ := Checked.foldlM_range_runs
    (Summed lists counts) start fun done starts inside summed =>
      have found := List.getElem?_eq_getElem inside
      summed.next found (counted done _ found)
  rw [ran]
  refine congrArg Except.ok (Checked.ext_of_size summed.size_eq size_start
    fun k inside => ?_)
  rw [summed.sums k (Nat.le_of_lt_succ inside),
    start_ofLists (Nat.le_of_lt_succ inside)]

/-- The starts are those of any lists with as many positions as are named. -/
theorem starts_runs {owners : Array Nat}
    (small : ∀ owner ∈ owners.toList, owner < lists.length)
    (counted : ∀ (k : Nat) (list : List Nat), lists[k]? = some list →
      owners.toList.count k = list.length) :
    starts lists.length owners = .ok (ofLists lists).start := by
  obtain ⟨counts, ran, counts_size, first, counts_eq⟩ := counts_runs small
  rw [starts, ← Array.foldlM_toList, ran, Checked.ok_bind]
  refine sums_runs counts_size first fun k list found => ?_
  rw [counts_eq k (List.getElem?_eq_some_iff.mp found).1, counted k list found]

theorem index_ofLists {list : List Nat} (found : lists[k]? = some list)
    {place : Nat} (inside : place < list.length) :
    (ofLists lists).index[base lists k + place]? = list[place]? := by
  obtain ⟨insideK, rfl⟩ := List.getElem?_eq_some_iff.mp found
  rw [ofLists, List.getElem?_toArray, ← List.getElem?_drop, base,
    drop_flatten, List.drop_eq_getElem_cons insideK, List.flatten_cons,
    List.getElem?_append_left inside]

theorem positions_ofLists (inside : k < lists.length) :
    (ofLists lists).positions k =
      .ok (span (base lists k) (base lists (k + 1))) := by
  rw [positions, get_start (Nat.le_of_lt inside), Checked.ok_bind,
    get_start inside]
  rfl

theorem base_add_injective {other place place' : Nat} {list list' : List Nat}
    (found : lists[k]? = some list) (found' : lists[other]? = some list')
    (inside : place < list.length) (inside' : place' < list'.length)
    (same : base lists k + place = base lists other + place') :
    k = other ∧ place = place' := by
  have stepK := base_succ found
  have stepOther := base_succ found'
  rcases Nat.lt_trichotomy k other with below | rfl | above
  · have := @base_mono lists (k + 1) other below
    omega
  · exact ⟨rfl, by omega⟩
  · have := @base_mono lists (other + 1) k above
    omega

theorem exists_place {position : Nat}
    (inside : position < base lists lists.length) :
    ∃ k list place, lists[k]? = some list ∧ place < list.length ∧
      position = base lists k + place := by
  suffices below : ∀ count, count ≤ lists.length →
      position < base lists count → ∃ k list place,
        lists[k]? = some list ∧ place < list.length ∧
          position = base lists k + place from
    below lists.length (Nat.le_refl _) inside
  intro count
  induction count with
  | zero =>
      intro _ small
      exact absurd small (Nat.not_lt_zero _)
  | succ count ih =>
      intro le small
      have found : lists[count]? = some lists[count] :=
        List.getElem?_eq_getElem le
      by_cases before : position < base lists count
      · exact ih (Nat.le_of_succ_le le) before
      · rw [base_succ found] at small
        exact ⟨count, lists[count], position - base lists count, found,
          by omega, by omega⟩

end Compressed

end QuasiDefinite
