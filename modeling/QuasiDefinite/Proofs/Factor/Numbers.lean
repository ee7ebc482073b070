import Mathlib.Data.List.Basic
import QuasiDefinite.Factor.Basic
import QuasiDefinite.Proofs.Elimination.Plan

/-!
The equations of an elimination. They determine every number that a
factorization computes, whatever the arithmetic (`Solves.unique`).
-/

namespace QuasiDefinite

variable {α : Type}

/-- What an elimination computes: the entry of every row that is found in the
work array when its column comes, and the pivots. -/
structure Numbers (α : Type) where
  entry : Nat → Nat → α
  pivot : Nat → Pivot α

namespace Numbers

def setEntry (numbers : Numbers α) (row col : Nat) (value : α) : Numbers α :=
  { numbers with
    entry := fun i k => if i = row ∧ k = col then value else numbers.entry i k }

def setPivot (numbers : Numbers α) (row : Nat) (pivot : Pivot α) : Numbers α :=
  { numbers with
    pivot := fun k => if k = row then pivot else numbers.pivot k }

variable {numbers : Numbers α} {row col : Nat} {value : α} {pivot : Pivot α}

@[simp] theorem pivot_setEntry :
    (numbers.setEntry row col value).pivot = numbers.pivot :=
  rfl

@[simp] theorem entry_setPivot :
    (numbers.setPivot row pivot).entry = numbers.entry :=
  rfl

@[simp] theorem entry_setEntry_self :
    (numbers.setEntry row col value).entry row col = value := by
  simp [setEntry]

@[simp] theorem pivot_setPivot_self :
    (numbers.setPivot row pivot).pivot row = pivot := by
  simp [setPivot]

theorem entry_setEntry_of_ne {i k : Nat} (differs : i = row → k ≠ col) :
    (numbers.setEntry row col value).entry i k = numbers.entry i k := by
  rw [setEntry]
  exact if_neg fun same => differs same.1 same.2

theorem pivot_setPivot_of_ne {k : Nat} (differs : k ≠ row) :
    (numbers.setPivot row pivot).pivot k = numbers.pivot k :=
  if_neg differs

end Numbers

namespace Plan

/-- Those of the columns in which row `row` of the factor has an entry. -/
def within (plan : Plan) (cols : List Nat) (row : Nat) : List Nat :=
  cols.filter fun col => (plan.rowColumns row).contains col

variable {plan : Plan} {pattern : Pattern} {signs : Array Sign}
  {row other col : Nat} {cols : List Nat}

theorem mem_within :
    col ∈ plan.within cols row ↔ col ∈ cols ∧ col ∈ plan.rowColumns row := by
  simp [within]

theorem within_append_of_mem (member : col ∈ plan.rowColumns row) :
    plan.within (cols ++ [col]) row = plan.within cols row ++ [col] := by
  simp [within, member]

theorem within_append_of_notMem (absent : col ∉ plan.rowColumns row) :
    plan.within (cols ++ [col]) row = plan.within cols row := by
  simp [within, absent]

theorem within_of_split (regular : plan.Regular pattern signs)
    {done rest : List Nat} (split : plan.rowColumns row = done ++ col :: rest) :
    plan.within (plan.rowColumns row) col = plan.within done col := by
  have ascending := @Regular.pairwise_rowColumns _ _ _ row regular
  rw [split, List.pairwise_append, List.pairwise_cons] at ascending
  obtain ⟨_, ⟨later, _⟩, _⟩ := ascending
  have none : plan.within (col :: rest) col = [] := by
    rw [within, List.filter_eq_nil_iff]
    intro via member inCol
    have below := (regular.lt_of_mem (by simpa using inCol)).1
    rcases List.mem_cons.mp member with rfl | member
    · exact Nat.lt_irrefl _ below
    · exact Nat.lt_asymm below (later via member)
  rw [within] at none
  rw [split, within, List.filter_append, none, List.append_nil, within]

end Plan

variable [Scalar α]

/-- The entry of the matrix in row `row` and column `col`, in elimination
order; zero where the pattern has none. -/
def Plan.valueAt (plan : Plan) (matrix : Array α) (row col : Nat) : α :=
  match plan.pattern.slot? row col with
  | some slot => matrix.getD slot 0
  | none => 0

namespace Numbers

def multiplier (numbers : Numbers α) (row col : Nat) : α :=
  numbers.entry row col * (1 / (numbers.pivot col).kept)

/-- What is left of `start`, a value in column `col` of row `row`, when the
multiples found in the columns `cols` are taken away. -/
def reduce (numbers : Numbers α) (row col : Nat) (start : α)
    (cols : List Nat) : α :=
  cols.foldl
    (fun value via =>
      value - numbers.multiplier col via * numbers.entry row via)
    start

/-- The numbers solve the equations of the first `count` rows. -/
structure Solves (numbers : Numbers α) (plan : Plan) (settings : Settings α)
    (matrix : Array α) (count : Nat) : Prop where
  entry : ∀ row col : Nat, row < count → col ∈ plan.rowColumns row →
    numbers.entry row col = numbers.reduce row col
      (plan.valueAt matrix col row)
      (plan.within (plan.rowColumns row) col)
  pivot : ∀ (row : Nat) (sign : Sign), row < count →
    plan.signs[row]? = some sign →
    numbers.pivot row = .regularize settings sign (numbers.reduce row row
      (plan.valueAt matrix row row + sign.value * settings.staticReg)
      (plan.rowColumns row))

variable {plan : Plan} {pattern : Pattern} {signs : Array Sign}
  {settings : Settings α} {matrix : Array α} {numbers numbers' : Numbers α}
  {row col : Nat} {start value : α} {pivot : Pivot α} {cols : List Nat}

theorem reduce_append (last : Nat) :
    numbers.reduce row col start (cols ++ [last]) =
      numbers.reduce row col start cols -
        numbers.multiplier col last * numbers.entry row last := by
  simp [reduce]

theorem reduce_congr
    (entry : ∀ via ∈ cols, numbers.entry row via = numbers'.entry row via)
    (multiplier : ∀ via ∈ cols,
      numbers.multiplier col via = numbers'.multiplier col via) :
    numbers.reduce row col start cols = numbers'.reduce row col start cols := by
  apply List.foldl_ext
  intro value via member
  rw [entry via member, multiplier via member]

theorem multiplier_congr
    (entry : numbers.entry row col = numbers'.entry row col)
    (pivot : numbers.pivot col = numbers'.pivot col) :
    numbers.multiplier row col = numbers'.multiplier row col := by
  rw [multiplier, multiplier, entry, pivot]

theorem Solves.congr (regular : plan.Regular pattern signs) {count : Nat}
    (solves : numbers.Solves plan settings matrix count)
    (entry : ∀ row, row < count → numbers'.entry row = numbers.entry row)
    (pivot : ∀ row, row < count → numbers'.pivot row = numbers.pivot row) :
    numbers'.Solves plan settings matrix count := by
  have multiplier : ∀ row col, row < count → col ∈ plan.rowColumns row →
      numbers.multiplier row col = numbers'.multiplier row col := by
    intro row col inside member
    have below := (regular.lt_of_mem member).1
    exact multiplier_congr (by rw [entry row inside])
      (pivot col (Nat.lt_trans below inside)).symm
  constructor
  · intro row col inside member
    rw [entry row inside, solves.entry row col inside member]
    apply reduce_congr
    · intro via _
      rw [entry row inside]
    · intro via member'
      have below := (regular.lt_of_mem member).1
      exact multiplier col via (Nat.lt_trans below inside)
        (Plan.mem_within.mp member').2
  · intro row sign inside signed
    rw [pivot row inside, solves.pivot row sign inside signed]
    congr 1
    apply reduce_congr
    · intro via _
      rw [entry row inside]
    · intro via member
      exact multiplier row via inside member

def AgreeIn (plan : Plan) (numbers numbers' : Numbers α) (row : Nat) : Prop :=
  numbers.pivot row = numbers'.pivot row ∧
    ∀ col ∈ plan.rowColumns row,
      numbers.entry row col = numbers'.entry row col

theorem multiplier_of_agree (regular : plan.Regular pattern signs)
    (earlier : ∀ other, other < row → AgreeIn plan numbers numbers' other)
    (agree : numbers.entry row col = numbers'.entry row col)
    (member : col ∈ plan.rowColumns row) :
    numbers.multiplier row col = numbers'.multiplier row col :=
  multiplier_congr agree (earlier col (regular.lt_of_mem member).1).1

theorem Solves.unique (regular : plan.Regular pattern signs)
    (solves : numbers.Solves plan settings matrix plan.size)
    (solves' : numbers'.Solves plan settings matrix plan.size) :
    ∀ row, row < plan.size → AgreeIn plan numbers numbers' row := by
  intro row
  induction row using Nat.strong_induction_on with
  | _ row earlier =>
      intro inside
      have earlier : ∀ other, other < row →
          AgreeIn plan numbers numbers' other :=
        fun other below => earlier other below (Nat.lt_trans below inside)
      have entries : ∀ col, col ∈ plan.rowColumns row →
          numbers.entry row col = numbers'.entry row col := by
        intro col
        induction col using Nat.strong_induction_on with
        | _ col before =>
            intro member
            rw [solves.entry row col inside member,
              solves'.entry row col inside member]
            have below := (regular.lt_of_mem member).1
            apply reduce_congr
            · intro via member'
              obtain ⟨inRow, inCol⟩ := Plan.mem_within.mp member'
              exact before via (regular.lt_of_mem inCol).1 inRow
            · intro via member'
              obtain ⟨_, inCol⟩ := Plan.mem_within.mp member'
              have small := (regular.lt_of_mem inCol).1
              exact multiplier_congr ((earlier col below).2 via inCol)
                (earlier via (Nat.lt_trans small below)).1
      refine ⟨?_, entries⟩
      obtain ⟨sign, signed⟩ : ∃ sign, plan.signs[row]? = some sign :=
        ⟨_, Array.getElem?_eq_getElem (by
          rwa [regular.signs_size, ← regular.size_eq])⟩
      rw [solves.pivot row sign inside signed,
        solves'.pivot row sign inside signed]
      congr 1
      apply reduce_congr entries
      intro via member
      exact multiplier_of_agree regular earlier (entries via member) member

/-! Numbers that become known one by one. -/

theorem multiplier_setEntry_of_ne {i k : Nat} (differs : i = row → k ≠ col) :
    (numbers.setEntry row col value).multiplier i k =
      numbers.multiplier i k :=
  multiplier_congr (entry_setEntry_of_ne differs) rfl

theorem multiplier_setPivot_of_ne {i k : Nat} (differs : k ≠ row) :
    (numbers.setPivot row pivot).multiplier i k = numbers.multiplier i k :=
  multiplier_congr rfl (pivot_setPivot_of_ne differs)

theorem reduce_setEntry {i k : Nat} (fresh : i = row ∨ k = row → col ∉ cols) :
    (numbers.setEntry row col value).reduce i k start cols =
      numbers.reduce i k start cols := by
  apply reduce_congr
  · intro via member
    exact entry_setEntry_of_ne fun same =>
      fun other => fresh (.inl same) (other ▸ member)
  · intro via member
    exact multiplier_setEntry_of_ne fun same =>
      fun other => fresh (.inr same) (other ▸ member)

theorem reduce_setPivot {i k : Nat} (fresh : row ∉ cols) :
    (numbers.setPivot row pivot).reduce i k start cols =
      numbers.reduce i k start cols := by
  apply reduce_congr
  · intro via _
    rfl
  · intro via member
    exact multiplier_setPivot_of_ne fun same => fresh (same ▸ member)

end Numbers

end QuasiDefinite
