import QuasiDefinite.Checked

/-!
Compressed lists. A family of lists of indices is stored as one array of
indices, list after list, with an array of positions: list `k` occupies the
positions `start[k], ..., start[k + 1] - 1`.
-/

namespace QuasiDefinite

def offsets (first : Nat) : List Nat → List Nat
  | [] => [first]
  | count :: counts => first :: offsets (first + count) counts

theorem length_offsets (first : Nat) (counts : List Nat) :
    (offsets first counts).length = counts.length + 1 := by
  induction counts generalizing first with
  | nil => rfl
  | cons count counts ih => simp [offsets, ih]

def total : List Nat → Nat
  | [] => 0
  | count :: counts => count + total counts

theorem total_map_length (lists : List (List Nat)) :
    total (lists.map List.length) = lists.flatten.length := by
  induction lists with
  | nil => rfl
  | cons list lists ih => simp [total, ih]

theorem total_append (left right : List Nat) :
    total (left ++ right) = total left + total right := by
  induction left with
  | nil => simp [total]
  | cons count counts ih =>
      simp only [List.cons_append, total, ih, Nat.add_assoc]

theorem getElem?_offsets {first k : Nat} {counts : List Nat}
    (inside : k ≤ counts.length) :
    (offsets first counts)[k]? = some (first + total (counts.take k)) := by
  induction counts generalizing first k with
  | nil =>
      obtain rfl : k = 0 := Nat.le_zero.mp inside
      rfl
  | cons count counts ih =>
      cases k with
      | zero => rfl
      | succ k =>
          rw [offsets, List.getElem?_cons_succ,
            ih (Nat.le_of_succ_le_succ inside), List.take_succ_cons, total,
            Nat.add_assoc]

theorem drop_flatten (lists : List (List Nat)) (k : Nat) :
    lists.flatten.drop (total ((lists.map List.length).take k)) =
      (lists.drop k).flatten := by
  induction lists generalizing k with
  | nil => simp
  | cons list lists ih =>
      cases k with
      | zero => rfl
      | succ k =>
          simp only [List.map_cons, List.take_succ_cons, total,
            List.flatten_cons, List.drop_succ_cons]
          rw [List.drop_append, List.drop_eq_nil_of_le (Nat.le_add_right ..),
            Nat.add_sub_cancel_left, ih, List.nil_append]

structure Compressed where
  start : Array Nat
  index : Array Nat
  deriving Repr, DecidableEq, Inhabited

namespace Compressed

def ofLists (lists : List (List Nat)) : Compressed :=
  ⟨(offsets 0 (lists.map List.length)).toArray, lists.flatten.toArray⟩

def empty : Compressed :=
  ⟨#[0], #[]⟩

def push (family : Compressed) (list : List Nat) : Compressed :=
  let index := family.index ++ list
  ⟨family.start.push index.size, index⟩

/-- The starts of `size` lists, where list `k` gets one position for each time
that `owners` names it. The lists are counted one entry too high, and then every
entry is added to the next. -/
def starts (size : Nat) (owners : Array Nat) : Checked (Array Nat) := do
  let counts ← owners.foldlM
    (fun counts owner => Checked.modify counts (owner + 1) (· + 1))
    (Array.replicate (size + 1) 0)
  (List.range size).foldlM
    (fun starts k => do
      let before ← Checked.get starts k
      Checked.modify starts (k + 1) (· + before))
    counts

def positions (family : Compressed) (k : Nat) : Checked (List Nat) := do
  let first ← Checked.get family.start k
  let last ← Checked.get family.start (k + 1)
  return span first last

def length (family : Compressed) (k : Nat) : Checked Nat := do
  let first ← Checked.get family.start k
  let last ← Checked.get family.start (k + 1)
  Checked.sub last first

def list (family : Compressed) (k : Nat) : Checked (List Nat) := do
  let first ← Checked.get family.start k
  let last ← Checked.get family.start (k + 1)
  Checked.slice family.index first last

theorem list_ofLists {lists : List (List Nat)} {k : Nat} {list : List Nat}
    (found : lists[k]? = some list) : (ofLists lists).list k = .ok list := by
  obtain ⟨inside, rfl⟩ := List.getElem?_eq_some_iff.mp found
  let lengths := lists.map List.length
  have first : Checked.get (ofLists lists).start k =
      .ok (0 + total (lengths.take k)) := by
    rw [Checked.get_eq_ok_iff]
    simp only [ofLists, List.getElem?_toArray]
    exact getElem?_offsets (by simp; omega)
  have last : Checked.get (ofLists lists).start (k + 1) =
      .ok (0 + total (lengths.take (k + 1))) := by
    rw [Checked.get_eq_ok_iff]
    simp only [ofLists, List.getElem?_toArray]
    exact getElem?_offsets (by simp; omega)
  have step : total (lengths.take (k + 1)) =
      total (lengths.take k) + lists[k].length := by
    rw [List.take_succ_eq_append_getElem (by simpa [lengths]), total_append]
    simp [total, lengths]
  have dropped : lists.flatten.drop (total (lengths.take k)) =
      lists[k] ++ (lists.drop (k + 1)).flatten := by
    rw [drop_flatten, List.drop_eq_getElem_cons inside, List.flatten_cons]
  have fits : total (lengths.take (k + 1)) ≤ lists.flatten.length := by
    rw [← total_map_length, ← List.take_append_drop (k + 1)
      (lists.map List.length), total_append]
    exact Nat.le_add_right ..
  simp only [list, first, last, Nat.zero_add]
  refine (Checked.slice_eq_ok ?_ ?_).trans ?_
  · omega
  · simpa [ofLists] using fits
  · simp only [ofLists, List.toList_toArray, dropped, step,
      Nat.add_sub_cancel_left, List.take_left]

end Compressed

end QuasiDefinite
