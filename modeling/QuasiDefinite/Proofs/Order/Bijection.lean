import Mathlib.Data.Fintype.EquivFin
import QuasiDefinite.Proofs.Order.Permutation

namespace QuasiDefinite

namespace Permutation

/-- The list maps `0, ..., n - 1` to itself, and onto itself without
repetition. -/
def Bijects (order : Array Nat) : Prop :=
  ∃ small : ∀ place : Fin order.size, order[place] < order.size,
    Function.Bijective fun place : Fin order.size =>
      (⟨order[place], small place⟩ : Fin order.size)

/-- Reading one of the arrays and then the other leads back to where the reading
began. -/
structure Inverts (permutation : Permutation) (size : Nat) : Prop where
  order_size : permutation.order.size = size
  place_size : permutation.place.size = size
  place_order : ∀ place < size,
    permutation.order[place]?.bind (permutation.place[·]?) = some place
  order_place : ∀ index < size,
    permutation.place[index]?.bind (permutation.order[·]?) = some index

variable {permutation : Permutation} {order : Array Nat} {size : Nat}

theorem bijects_iff_perm :
    Bijects order ↔ order.toList.Perm (List.range order.size) := by
  constructor
  · intro ⟨small, bijective⟩
    have nodup : order.toList.Nodup := by
      apply List.nodup_iff_injective_get.mpr
      intro place place' same
      have injective := bijective.injective
      exact @injective place place' (Fin.ext same)
    have subset : order.toList ⊆ List.range order.size := by
      intro index member
      obtain ⟨place, inside, rfl⟩ := List.mem_iff_getElem.mp member
      exact List.mem_range.mpr (small ⟨place, inside⟩)
    exact (nodup.subperm subset).perm_of_length_le (by simp)
  · intro perm
    have nodup : order.toList.Nodup := perm.nodup_iff.mpr List.nodup_range
    have small (place : Fin order.size) : order[place] < order.size := by
      apply List.mem_range.mp
      apply perm.mem_iff.mp
      simp
    refine ⟨small, Finite.injective_iff_bijective.mp ?_⟩
    intro place place' same
    have values := congrArg Fin.val same
    exact List.nodup_iff_injective_get.mp nodup values

theorem Valid.perm (valid : permutation.Valid size) :
    permutation.order.toList.Perm (List.range size) := by
  have nodup : permutation.order.toList.Nodup := by
    apply List.nodup_iff_getElem?_ne_getElem?.mpr
    intro place place' before inside same
    simp only [Array.length_toList, Array.getElem?_toList] at inside same
    have found := Array.getElem?_eq_getElem inside
    exact Nat.ne_of_lt before
      (valid.order_injective (same.trans found) found)
  have subset : permutation.order.toList ⊆ List.range size := by
    intro index member
    obtain ⟨place, found⟩ := List.mem_iff_getElem?.mp member
    rw [Array.getElem?_toList] at found
    exact List.mem_range.mpr (valid.order_lt found)
  apply (nodup.subperm subset).perm_of_length_le
  simp [valid.order_size]

theorem Valid.inverts (valid : permutation.Valid size) :
    permutation.Inverts size where
  order_size := valid.order_size
  place_size := valid.place_size
  place_order := by
    intro place inside
    obtain ⟨index, _, held, back⟩ := valid.exists_order inside
    rw [held]
    exact back
  order_place := by
    intro index inside
    obtain ⟨place, _, held, back⟩ := valid.exists_place inside
    rw [held]
    exact back

theorem Inverts.valid (inverts : permutation.Inverts size) :
    permutation.Valid size where
  order_size := inverts.order_size
  place_size := inverts.place_size
  inverse := by
    intro place index
    constructor
    · intro found
      have inside := (Array.getElem?_eq_some_iff.mp found).1
      rw [inverts.order_size] at inside
      have back := inverts.place_order place inside
      rwa [found] at back
    · intro found
      have inside := (Array.getElem?_eq_some_iff.mp found).1
      rw [inverts.place_size] at inside
      have back := inverts.order_place index inside
      rwa [found] at back

theorem Valid.unique {permutation' : Permutation}
    (valid : permutation.Valid size) (valid' : permutation'.Valid size)
    (same : permutation'.order = permutation.order) :
    permutation' = permutation := by
  have places : permutation'.place = permutation.place := by
    apply Array.ext_getElem?
    intro index
    apply Option.ext
    intro place
    rw [← valid'.inverse, ← valid.inverse, same]
  cases permutation
  cases permutation'
  simp_all

theorem ofOrder_eq_ok_iff : ofOrder order = .ok permutation ↔
    permutation.order = order ∧ permutation.Inverts order.size := by
  constructor
  · intro accepted
    obtain ⟨same, valid⟩ := ofOrder_valid accepted
    exact ⟨same, valid.inverts⟩
  · intro ⟨same, inverts⟩
    subst same
    have valid := inverts.valid
    obtain ⟨permutation', accepted, same, valid'⟩ := ofOrder_runs valid.perm
    rw [accepted, valid.unique valid' same]

theorem accepted_iff_bijects :
    (∃ permutation, ofOrder order = .ok permutation) ↔ Bijects order := by
  rw [bijects_iff_perm]
  constructor
  · intro ⟨permutation, accepted⟩
    obtain ⟨rfl, valid⟩ := ofOrder_valid accepted
    exact valid.perm
  · intro perm
    obtain ⟨permutation, accepted, _⟩ := ofOrder_runs perm
    exact ⟨permutation, accepted⟩

/-- What is wrong with an entry that comes after others. -/
inductive Offends (size : Nat) (done : List Nat) (entry : Nat) :
    Flaw → Prop where
  | outOfRange (outside : size ≤ entry) :
      Offends size done entry (.outOfRange entry size)
  | repeated (inside : entry < size) (member : entry ∈ done) :
      Offends size done entry (.repeated entry)

/-- Entries that come after others are fine up to one that offends. -/
def FlawedAfter (size : Nat) (done rest : List Nat) (flaw : Flaw) : Prop :=
  ∃ before entry after, rest = before ++ entry :: after ∧
    ((done ++ before).Nodup ∧ ∀ index ∈ done ++ before, index < size) ∧
    Offends size (done ++ before) entry flaw

/-- What is wrong with a list is wrong with its first entry that is out of range
or was there before. -/
def Flawed (order : Array Nat) (flaw : Flaw) : Prop :=
  ∃ before entry after, order.toList = before ++ entry :: after ∧
    (before.Nodup ∧ ∀ index ∈ before, index < order.size) ∧
    Offends order.size before entry flaw

variable {entry : Nat} {done : List Nat} {places : Array Nat} {flaw : Flaw}

theorem record_eq_error_iff (recorded : Recorded size done places)
    (room : done.length < size) :
    record places entry done.length = .error flaw ↔
      Offends size done entry flaw := by
  obtain rfl := recorded.size_eq
  unfold record
  split
  · next inside =>
    obtain ⟨_, found⟩ :=
      Array.getElem?_eq_some_iff.mp (recorded.places entry inside)
    rw [found]
    by_cases member : entry ∈ done
    · have early := List.idxOf_lt_length_of_mem member
      rw [if_pos member, if_neg (Nat.ne_of_lt (early.trans room)),
        Except.error.injEq]
      constructor
      · intro same
        exact same ▸ .repeated inside member
      · intro offends
        cases offends with
        | outOfRange outside => omega
        | repeated => rfl
    · rw [if_neg member, if_pos rfl]
      apply iff_of_false nofun
      intro offends
      cases offends with
      | outOfRange outside => omega
      | repeated _ member' => exact member member'
  · next outside =>
    rw [Except.error.injEq]
    constructor
    · intro same
      exact same ▸ .outOfRange (Nat.le_of_not_lt outside)
    · intro offends
      cases offends with
      | outOfRange => rfl
      | repeated inside _ => exact absurd inside outside

theorem Recorded.flawedAfter_cons {rest : List Nat}
    (recorded : Recorded size done places) :
    FlawedAfter size done (entry :: rest) flaw ↔
      Offends size done entry flaw ∨ (entry < size ∧ entry ∉ done) ∧
        FlawedAfter size (done ++ [entry]) rest flaw := by
  constructor
  · intro ⟨before, other, after, split, ⟨nodup, small⟩, offends⟩
    cases before with
    | nil =>
        obtain ⟨rfl, rfl⟩ := List.cons.inj split
        exact .inl (by simpa using offends)
    | cons head before =>
        obtain ⟨rfl, rfl⟩ := List.cons.inj split
        have distinct := (List.nodup_append.mp nodup).2.2
        refine .inr ⟨⟨small entry (by simp), ?_⟩, before, other, after, rfl, ?_⟩
        · intro member
          exact distinct entry member entry (by simp) rfl
        · rw [List.append_assoc]
          exact ⟨⟨nodup, small⟩, offends⟩
  · intro flawed
    cases flawed with
    | inl offends =>
        refine ⟨[], entry, rest, rfl, ?_⟩
        simpa using ⟨⟨recorded.nodup, recorded.small⟩, offends⟩
    | inr later =>
        obtain ⟨_, before, other, after, split, clean⟩ := later
        refine ⟨entry :: before, other, after, by rw [split]; rfl, ?_⟩
        rwa [List.append_assoc] at clean

theorem foldlM_record_eq_error_iff {rest : List Nat}
    (recorded : Recorded size done places)
    (room : done.length + rest.length ≤ size) :
    (rest.zipIdx done.length).foldlM
        (fun places (entry, rank) => record places entry rank) places =
        .error flaw ↔ FlawedAfter size done rest flaw := by
  induction rest generalizing done places with
  | nil =>
      apply iff_of_false nofun
      intro ⟨before, entry, after, split, _⟩
      simp at split
  | cons entry rest ih =>
      rw [List.length_cons] at room
      have first := @record_eq_error_iff size entry done places flaw recorded
        (by omega)
      rw [List.zipIdx_cons, List.foldlM_cons, recorded.flawedAfter_cons,
        ← first]
      dsimp only
      cases ran : record places entry done.length with
      | error found =>
          rw [Checked.error_bind, Except.error.injEq, or_iff_left]
          intro ⟨fine, _⟩
          rw [(record_eq_ok_iff recorded (by omega)).mpr ⟨fine, rfl⟩] at ran
          cases ran
      | ok next =>
          obtain ⟨fine, rfl⟩ :=
            (record_eq_ok_iff recorded (by omega)).mp ran
          have recorded' := recorded.next fine.1 fine.2 (by omega)
          have tail := ih recorded' (by rw [List.length_append]; simp; omega)
          rw [List.length_append, List.length_singleton] at tail
          rw [Checked.ok_bind, tail]
          simp [fine]

theorem ofOrder_eq_error_iff :
    ofOrder order = .error flaw ↔ Flawed order flaw := by
  have failed := @foldlM_record_eq_error_iff order.size [] _ flaw order.toList
    (recorded_nil order.size) (by simp)
  exact Checked.bind_ok_eq_error_iff.trans failed

end Permutation

end QuasiDefinite
