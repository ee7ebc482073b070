import Mathlib.Data.List.Perm.Subperm
import QuasiDefinite.Order.Rule
import QuasiDefinite.Proofs.Checked

namespace QuasiDefinite

namespace Permutation

/-- The two arrays are inverse to each other on `0, ..., size - 1`. -/
structure Valid (permutation : Permutation) (size : Nat) : Prop where
  order_size : permutation.order.size = size
  place_size : permutation.place.size = size
  inverse : ∀ place index : Nat, permutation.order[place]? = some index ↔
    permutation.place[index]? = some place

namespace Valid

variable {permutation : Permutation} {size : Nat}

theorem order_lt (valid : permutation.Valid size) {place index : Nat}
    (found : permutation.order[place]? = some index) : index < size := by
  have found' := (valid.inverse place index).mp found
  rw [← valid.place_size]
  exact (Array.getElem?_eq_some_iff.mp found').1

theorem place_lt (valid : permutation.Valid size) {place index : Nat}
    (found : permutation.place[index]? = some place) : place < size := by
  have found' := (valid.inverse place index).mpr found
  rw [← valid.order_size]
  exact (Array.getElem?_eq_some_iff.mp found').1

theorem exists_order (valid : permutation.Valid size) {place : Nat}
    (inside : place < size) :
    ∃ index, index < size ∧ permutation.order[place]? = some index ∧
      permutation.place[index]? = some place := by
  rw [← valid.order_size] at inside
  have found := Array.getElem?_eq_getElem inside
  exact ⟨_, valid.order_lt found, found, (valid.inverse ..).mp found⟩

theorem exists_place (valid : permutation.Valid size) {index : Nat}
    (inside : index < size) :
    ∃ place, place < size ∧ permutation.place[index]? = some place ∧
      permutation.order[place]? = some index := by
  rw [← valid.place_size] at inside
  have found := Array.getElem?_eq_getElem inside
  exact ⟨_, valid.place_lt found, found, (valid.inverse ..).mpr found⟩

theorem order_injective (valid : permutation.Valid size)
    {place place' index : Nat} (found : permutation.order[place]? = some index)
    (found' : permutation.order[place']? = some index) : place = place' := by
  rw [valid.inverse] at found found'
  exact Option.some.inj (found.symm.trans found')

theorem mapM_get_runs {α : Type} (valid : permutation.Valid size)
    {values : Array α} (values_size : values.size = size) :
    ∃ new, permutation.order.mapM (Checked.get values) = .ok new ∧
      new.size = size ∧ ∀ place index : Nat,
        permutation.order[place]? = some index →
          new[place]? = values[index]? := by
  obtain ⟨new, ran, length, same⟩ :=
    @Checked.mapM_get_runs _ values permutation.order.toList (by
      intro index member
      obtain ⟨place, found⟩ := List.mem_iff_getElem?.mp member
      rw [Array.getElem?_toList] at found
      rw [values_size]
      exact valid.order_lt found)
  refine ⟨new.toArray, ?_, ?_, fun place index found => ?_⟩
  · rw [Array.mapM_eq_mapM_toList, ran]
    rfl
  · rw [List.size_toArray, length, Array.length_toList, valid.order_size]
  · rw [List.getElem?_toArray]
    exact same place index (by rwa [Array.getElem?_toList])

theorem foldlM_set_runs {α : Type} (valid : permutation.Valid size)
    {values target : Array α} (values_size : values.size = size)
    (target_size : target.size = size) :
    ∃ new, (permutation.order.toList.zip values.toList).foldlM
        (fun target entry => Checked.set target entry.1 entry.2) target =
        .ok new ∧
      new.size = size ∧ ∀ place index : Nat,
        permutation.order[place]? = some index →
          new[index]? = values[place]? := by
  obtain ⟨new, ran, new_size, same⟩ :=
    @Checked.foldlM_set_runs _ permutation.order.toList values.toList target
      (by
        intro index member
        obtain ⟨place, found⟩ := List.mem_iff_getElem?.mp member
        rw [Array.getElem?_toList] at found
        rw [target_size]
        exact valid.order_lt found)
      (by
        rw [Array.length_toList, Array.length_toList, valid.order_size,
          values_size])
      (by
        intro place place' index found found'
        rw [Array.getElem?_toList] at found found'
        exact valid.order_injective found found')
  refine ⟨new, ran, new_size.trans target_size, fun place index found => ?_⟩
  rw [same place index (by rwa [Array.getElem?_toList]),
    Array.getElem?_toList]

end Valid

theorem identity_valid (size : Nat) : (identity size).Valid size where
  order_size := by simp [identity]
  place_size := by simp [identity]
  inverse := by
    intro place index
    simp only [identity, Array.getElem?_range]
    split <;> split <;> simp <;> omega

/-! Recording a list of indices. -/

/-- The places of the indices that are done; all others are unmarked. -/
structure Recorded (size : Nat) (done : List Nat) (places : Array Nat) :
    Prop where
  size_eq : places.size = size
  nodup : done.Nodup
  small : ∀ index ∈ done, index < size
  length_le : done.length ≤ size
  places : ∀ index : Nat, index < size → places[index]? =
    some (if index ∈ done then done.idxOf index else size)

variable {size entry : Nat} {done : List Nat} {places : Array Nat}

theorem Recorded.next (recorded : Recorded size done places)
    (inside : entry < size) (fresh : entry ∉ done)
    (room : done.length < size) :
    Recorded size (done ++ [entry])
      (places.setIfInBounds entry done.length) where
  size_eq := by simpa using recorded.size_eq
  nodup := by
    rw [List.nodup_append]
    refine ⟨recorded.nodup, by simp, ?_⟩
    intro index member other last same
    rw [List.mem_singleton.mp last] at same
    exact fresh (same ▸ member)
  small := by
    intro index member
    rcases List.mem_append.mp member with old | last
    · exact recorded.small index old
    · rw [List.mem_singleton.mp last]
      exact inside
  length_le := by
    rw [List.length_append]
    exact room
  places := by
    intro index insideIndex
    by_cases same : entry = index
    · subst same
      rw [Array.getElem?_setIfInBounds_self_of_lt
        (by rwa [recorded.size_eq])]
      simp [List.idxOf_append, fresh]
    · rw [Array.getElem?_setIfInBounds_ne same,
        recorded.places index insideIndex]
      by_cases member : index ∈ done
      · simp [List.idxOf_append, member]
      · simp [member, Ne.symm same]

theorem record_eq_ok_iff (recorded : Recorded size done places)
    (room : done.length < size) {new : Array Nat} :
    record places entry done.length = .ok new ↔
      (entry < size ∧ entry ∉ done) ∧
        places.setIfInBounds entry done.length = new := by
  obtain rfl := recorded.size_eq
  unfold record
  split
  · next inside =>
    have found := recorded.places entry inside
    obtain ⟨_, found⟩ := Array.getElem?_eq_some_iff.mp found
    rw [found, Checked.set_eq_setIfInBounds]
    by_cases member : entry ∈ done
    · have early := List.idxOf_lt_length_of_mem member
      simp only [member, if_true, not_true, and_false, false_and, iff_false]
      rw [if_neg (by omega)]
      simp
    · simp [member, inside]
  · next outside => simp [outside]

theorem foldlM_record (recorded : Recorded size done places)
    {rest : List Nat} (room : done.length + rest.length ≤ size)
    {final : Array Nat} :
    (rest.zipIdx done.length).foldlM
        (fun places (entry, rank) => record places entry rank) places =
        .ok final →
      Recorded size (done ++ rest) final := by
  intro ran
  induction rest generalizing done places with
  | nil =>
      rw [List.append_nil]
      exact Except.ok.inj ran ▸ recorded
  | cons entry rest ih =>
      rw [List.length_cons] at room
      rw [List.zipIdx_cons, List.foldlM_cons,
        Checked.bind_eq_ok_iff] at ran
      obtain ⟨next, first, ran⟩ := ran
      obtain ⟨⟨inside, fresh⟩, rfl⟩ :=
        (record_eq_ok_iff recorded (by omega)).mp first
      have recorded' := recorded.next inside fresh (by omega)
      have := ih recorded' (by rw [List.length_append]; simp; omega)
        (by simpa using ran)
      simpa using this

theorem foldlM_record_runs (recorded : Recorded size done places)
    {rest : List Nat} (room : done.length + rest.length ≤ size)
    (small : ∀ index ∈ rest, index < size) (nodup : (done ++ rest).Nodup) :
    ∃ final, (rest.zipIdx done.length).foldlM
      (fun places (entry, rank) => record places entry rank) places =
      .ok final := by
  induction rest generalizing done places with
  | nil => exact ⟨places, rfl⟩
  | cons entry rest ih =>
      rw [List.length_cons] at room
      have inside : entry < size := small entry (List.mem_cons_self ..)
      have fresh : entry ∉ done := fun member =>
        (List.nodup_append.mp nodup).2.2 entry member entry
          (List.mem_cons_self ..) rfl
      have first := (record_eq_ok_iff recorded (by omega)).mpr
        ⟨⟨inside, fresh⟩, rfl⟩
      have recorded' := recorded.next inside fresh (by omega)
      obtain ⟨final, ran⟩ := ih recorded'
        (by rw [List.length_append]; simp; omega)
        (fun index member => small index (List.mem_cons_of_mem _ member))
        (by simpa using nodup)
      refine ⟨final, ?_⟩
      rw [List.zipIdx_cons, List.foldlM_cons]
      dsimp only
      rw [first, Checked.ok_bind]
      simpa using ran

theorem recorded_nil (size : Nat) :
    Recorded size [] (Array.replicate size size) where
  size_eq := by simp
  nodup := .nil
  small := by simp
  length_le := Nat.zero_le _
  places := by
    intro index inside
    simp [inside]

theorem Recorded.perm (recorded : Recorded size done places)
    (full : done.length = size) : done.Perm (List.range size) := by
  have subset : done ⊆ List.range size := fun index member =>
    List.mem_range.mpr (recorded.small index member)
  exact (recorded.nodup.subperm subset).perm_of_length_le (by simp [full])

/-- A list that is accepted is a permutation, and the places recorded for it
are its inverse. -/
theorem ofOrder_valid {order : Array Nat} {permutation : Permutation}
    (accepted : ofOrder order = .ok permutation) :
    permutation.order = order ∧ permutation.Valid order.size := by
  rw [ofOrder, Checked.bind_eq_ok_iff] at accepted
  obtain ⟨places, ran, made⟩ := accepted
  have made := Except.ok.inj made
  subst made
  have recorded := foldlM_record (recorded_nil order.size) (by simp) ran
  rw [List.nil_append] at recorded
  have perm := recorded.perm (by simp)
  refine ⟨rfl, rfl, recorded.size_eq, ?_⟩
  intro place index
  rw [← Array.getElem?_toList]
  constructor
  · intro found
    have member : index ∈ order.toList := List.mem_of_getElem? found
    rw [recorded.places index (recorded.small index member), if_pos member]
    obtain ⟨inside, rfl⟩ := List.getElem?_eq_some_iff.mp found
    rw [recorded.nodup.idxOf_getElem]
  · intro found
    have inside : index < order.size := by
      rw [← recorded.size_eq]
      exact (Array.getElem?_eq_some_iff.mp found).1
    have member : index ∈ order.toList :=
      perm.mem_iff.mpr (List.mem_range.mpr inside)
    rw [recorded.places index inside, if_pos member, Option.some.injEq]
      at found
    rw [← found]
    exact List.getElem?_idxOf member

theorem ofOrder_runs {order : Array Nat}
    (perm : order.toList.Perm (List.range order.size)) :
    ∃ permutation, ofOrder order = .ok permutation ∧
      permutation.order = order ∧ permutation.Valid order.size := by
  obtain ⟨places, ran⟩ := foldlM_record_runs (recorded_nil order.size)
    (by simp) (fun index member => List.mem_range.mp (perm.mem_iff.mp member))
    (by simpa using perm.nodup_iff.mpr List.nodup_range)
  have accepted : ofOrder order = .ok ⟨order, places⟩ := by
    rw [ofOrder, show order.toList.zipIdx.foldlM _ _ = _ from ran]
    rfl
  exact ⟨_, accepted, ofOrder_valid accepted⟩

end Permutation

theorem OrderRoutine.size_of_reply {routine : OrderRoutine}
    {pattern : Pattern} {order : Array Nat}
    (replied : routine.reply pattern = .ok order) :
    order.size = pattern.size := by
  rw [reply] at replied
  split at replied
  · next none =>
    cases replied
    exact none.symm
  · cases listed : routine pattern with
    | error reason =>
        rw [listed] at replied
        cases replied
    | ok listing =>
        rw [listed] at replied
        cases replied
        exact listing.size_toArray

namespace OrderRule

/-- The order that a rule lists, before it is checked. A routine that fails
lists the natural one. -/
def listing (pattern : Pattern) : OrderRule → Array Nat
  | natural => .range pattern.size
  | computed routine =>
      (routine.reply pattern).toOption.getD (.range pattern.size)
  | supplied order => order

variable {pattern : Pattern} {rule : OrderRule} {order : Array Nat}
  {permutation : Permutation}

theorem mapError_eq_ok_iff {α ε ε' : Type} {run : Except ε α} {look : ε → ε'}
    {value : α} : run.mapError look = .ok value ↔ run = .ok value := by
  cases run with
  | error _ => exact iff_of_false nofun nofun
  | ok _ => simp [Except.mapError]

theorem mapError_ofOrder_valid
    (accepted : (Permutation.ofOrder order).mapError Flaw.notPermutation =
      .ok permutation) :
    permutation.order = order ∧ permutation.Valid order.size :=
  Permutation.ofOrder_valid (mapError_eq_ok_iff.mp accepted)

theorem mapError_ofOrder_runs (sized : order.size = pattern.size)
    (perm : order.toList.Perm (List.range pattern.size)) :
    ∃ permutation, (Permutation.ofOrder order).mapError Flaw.notPermutation =
        .ok permutation ∧
      permutation.order = order ∧ permutation.Valid pattern.size := by
  rw [← sized] at perm ⊢
  obtain ⟨permutation, accepted, listed, valid⟩ := Permutation.ofOrder_runs perm
  exact ⟨permutation, mapError_eq_ok_iff.mpr accepted, listed, valid⟩

theorem permutation_of_reply {routine : OrderRoutine}
    (replied : routine.reply pattern = .ok order) :
    (computed routine).permutation pattern =
      (Permutation.ofOrder order).mapError .notPermutation := by
  rw [OrderRule.permutation, replied]

theorem permutation_of_failure {routine : OrderRoutine} {reason : String}
    (failed : routine.reply pattern = .error reason) :
    (computed routine).permutation pattern =
      .ok (.identity pattern.size) := by
  rw [OrderRule.permutation, failed]

theorem permutation_supplied : (supplied order).permutation pattern =
    if order.size = pattern.size then
      (Permutation.ofOrder order).mapError .notPermutation
    else .error (.length order.size pattern.size) :=
  rfl

theorem permutation_runs
    (perm : (rule.listing pattern).toList.Perm (List.range pattern.size)) :
    ∃ permutation, rule.permutation pattern = .ok permutation ∧
      permutation.order = rule.listing pattern ∧
      permutation.Valid pattern.size := by
  have sized : (rule.listing pattern).size = pattern.size := by
    simpa using perm.length_eq
  cases rule with
  | natural => exact ⟨_, rfl, rfl, Permutation.identity_valid _⟩
  | computed routine =>
      cases replied : routine.reply pattern with
      | error reason =>
          refine ⟨_, permutation_of_failure replied, ?_,
            Permutation.identity_valid _⟩
          rw [listing, replied]
          rfl
      | ok order =>
          have listed : (computed routine).listing pattern = order := by
            rw [listing, replied]
            rfl
          rw [listed] at perm sized ⊢
          rw [permutation_of_reply replied]
          exact mapError_ofOrder_runs sized perm
  | supplied order =>
      rw [permutation_supplied, if_pos (show order.size = _ from sized)]
      exact mapError_ofOrder_runs sized perm

theorem permutation_valid
    (accepted : rule.permutation pattern = .ok permutation) :
    permutation.order = rule.listing pattern ∧
      permutation.Valid pattern.size := by
  cases rule with
  | natural =>
      cases accepted
      exact ⟨rfl, Permutation.identity_valid pattern.size⟩
  | computed routine =>
      rw [listing]
      cases replied : routine.reply pattern with
      | error reason =>
          rw [permutation_of_failure replied, Except.ok.injEq] at accepted
          subst accepted
          exact ⟨rfl, Permutation.identity_valid pattern.size⟩
      | ok order =>
          rw [permutation_of_reply replied] at accepted
          rw [← OrderRoutine.size_of_reply replied]
          exact mapError_ofOrder_valid accepted
  | supplied order =>
      rw [permutation_supplied] at accepted
      split at accepted
      · next same =>
        rw [← same]
        exact mapError_ofOrder_valid accepted
      · cases accepted

end OrderRule

end QuasiDefinite
