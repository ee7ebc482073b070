/-!
Checked access. Kernels read and write arrays at computed positions, and a
position outside the array is answered by a fault, never by a default value.
A run without a fault is therefore a run whose every access was in bounds.
-/

namespace QuasiDefinite

/-- What stops a computation that left its data. -/
inductive Fault where
  | outside (index size : Nat)
  | reversed (first last : Nat)
  | negative (minuend subtrahend : Nat)
  | notAscending (node next : Nat)
  | belowDiagonal (row col : Nat)
  | tooLong (seconds : Nat)
  deriving Repr, DecidableEq

def Fault.message : Fault → String
  | outside index size => s!"index {index} lies outside {size} entries"
  | reversed first last => s!"range {first}..{last} runs backwards"
  | negative minuend subtrahend => s!"{minuend} - {subtrahend} is negative"
  | notAscending node next => s!"step from {node} to {next} does not ascend"
  | belowDiagonal row col => s!"entry ({row}, {col}) lies below the diagonal"
  | tooLong seconds => s!"{seconds} seconds are too long a duration"

abbrev Checked := Except Fault

namespace Checked

variable {α : Type}

@[inline]
def get (values : Array α) (index : Nat) : Checked α :=
  if h : index < values.size then .ok values[index]
  else .error (.outside index values.size)

@[inline]
def set (values : Array α) (index : Nat) (value : α) :
    Checked (Array α) :=
  if h : index < values.size then .ok (values.set index value h)
  else .error (.outside index values.size)

@[inline]
def modify (values : Array α) (index : Nat) (change : α → α) :
    Checked (Array α) :=
  if index < values.size then .ok (values.modify index change)
  else .error (.outside index values.size)

/-- Subtraction of naturals that refuses to stop at zero. -/
@[inline]
def sub (minuend subtrahend : Nat) : Checked Nat :=
  if subtrahend ≤ minuend then .ok (minuend - subtrahend)
  else .error (.negative minuend subtrahend)

def slice (values : Array α) (first last : Nat) : Checked (List α) :=
  if last < first then .error (.reversed first last)
  else if values.size < last then .error (.outside last values.size)
  else .ok (values.extract first last).toList

theorem get_eq_ok {values : Array α} {index : Nat} (h : index < values.size) :
    get values index = .ok values[index] := by
  simp [get, h]

theorem set_eq_ok {values : Array α} {index : Nat} {value : α}
    (h : index < values.size) :
    set values index value = .ok (values.set index value h) := by
  simp [set, h]

theorem get_eq_ok_iff {values : Array α} {index : Nat} {value : α} :
    get values index = .ok value ↔ values[index]? = some value := by
  unfold get
  split
  · next inside => simp [Array.getElem?_eq_getElem inside]
  · next outside =>
      simp [Array.getElem?_eq_none (Nat.le_of_not_lt outside)]

theorem set_eq_ok_iff {values new : Array α} {index : Nat} {value : α} :
    set values index value = .ok new ↔
      index < values.size ∧ values.setIfInBounds index value = new := by
  unfold set
  split
  · next inside => simp [inside, Array.setIfInBounds]
  · next outside => simp [outside]

theorem modify_eq_ok_iff {values new : Array α} {index : Nat}
    {change : α → α} :
    modify values index change = .ok new ↔
      index < values.size ∧ values.modify index change = new := by
  unfold modify
  split
  · next inside => simp [inside]
  · next outside => simp [outside]

theorem sub_eq_ok {minuend subtrahend : Nat} (h : subtrahend ≤ minuend) :
    sub minuend subtrahend = .ok (minuend - subtrahend) := by
  simp [sub, h]

theorem sub_eq_ok_iff {minuend subtrahend rest : Nat} :
    sub minuend subtrahend = .ok rest ↔ minuend = rest + subtrahend := by
  unfold sub
  split
  · rw [Except.ok.injEq]
    omega
  · simp
    omega

theorem slice_eq_ok {values : Array α} {first last : Nat}
    (ascending : first ≤ last) (inside : last ≤ values.size) :
    slice values first last =
      .ok ((values.toList.drop first).take (last - first)) := by
  unfold slice
  rw [if_neg (Nat.not_lt.mpr ascending), if_neg (Nat.not_lt.mpr inside),
    Array.toList_extract, List.extract_eq_take_drop]

end Checked

/-- The positions `first, ..., last - 1`, none when `last ≤ first`. -/
def span (first last : Nat) : List Nat :=
  List.range' first (last - first)

theorem mem_span {first last index : Nat} :
    index ∈ span first last ↔ first ≤ index ∧ index < last := by
  simp only [span, List.mem_range'_1]
  omega

end QuasiDefinite
