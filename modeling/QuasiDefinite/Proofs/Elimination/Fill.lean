import Mathlib.Data.Nat.Find
import Mathlib.Logic.Relation

/-!
The fill of symmetric elimination. Main statements: an entry arises in the
factor exactly where a path joins its two indices through smaller ones
(`fill_iff_path`), and a row of the factor is what its entries in the matrix
reach by climbing from first rows to first rows (`fill_iff_climbs`).
-/

namespace QuasiDefinite.Elimination

open Relation

/-- The entries `(col, row)` of the factor below its diagonal. Elimination
starts from the entries of the matrix, and eliminating a column joins all rows
that have an entry there. -/
inductive Fill (adjacent : Nat → Nat → Prop) : Nat → Nat → Prop
  | entry {col row : Nat} (below : col < row) (present : adjacent col row) :
      Fill adjacent col row
  | join {col low high : Nat} (below : low < high)
      (left : Fill adjacent col low) (right : Fill adjacent col high) :
      Fill adjacent low high

/-- A path whose vertices between the two ends are all smaller than `bound`. -/
inductive PathBelow (adjacent : Nat → Nat → Prop) (bound : Nat) :
    Nat → Nat → Prop
  | edge {first last : Nat} (present : adjacent first last) :
      PathBelow adjacent bound first last
  | through {first via last : Nat} (present : adjacent first via)
      (small : via < bound) (rest : PathBelow adjacent bound via last) :
      PathBelow adjacent bound first last

/-- Row `row` is the first row below the diagonal in column `col` of the
factor. -/
def IsParent (adjacent : Nat → Nat → Prop) (col row : Nat) : Prop :=
  Fill adjacent col row ∧ ∀ other, Fill adjacent col other → row ≤ other

abbrev Climbs (adjacent : Nat → Nat → Prop) : Nat → Nat → Prop :=
  ReflTransGen (IsParent adjacent)

variable {adjacent : Nat → Nat → Prop}

theorem Fill.lt {col row : Nat} (fill : Fill adjacent col row) :
    col < row := by
  cases fill with
  | entry below present => exact below
  | join below left right => exact below

namespace PathBelow

variable {bound first last : Nat}

theorem mono {larger : Nat} (le : bound ≤ larger)
    (path : PathBelow adjacent bound first last) :
    PathBelow adjacent larger first last := by
  induction path with
  | edge present => exact .edge present
  | through present small _ ih =>
      exact .through present (Nat.lt_of_lt_of_le small le) ih

theorem trans {via : Nat} (left : PathBelow adjacent bound first via)
    (small : via < bound) (right : PathBelow adjacent bound via last) :
    PathBelow adjacent bound first last := by
  induction left with
  | edge present => exact .through present small right
  | through present inner _ ih =>
      exact .through present inner (ih small right)

theorem symm (symmetric : ∀ i k, adjacent i k → adjacent k i)
    (path : PathBelow adjacent bound first last) :
    PathBelow adjacent bound last first := by
  induction path with
  | edge present => exact .edge (symmetric _ _ present)
  | through present small _ ih =>
      exact ih.trans small (.edge (symmetric _ _ present))

theorem split (path : PathBelow adjacent (bound + 1) first last) :
    PathBelow adjacent bound first last ∨
      PathBelow adjacent bound first bound ∧
        PathBelow adjacent bound bound last := by
  induction path with
  | edge present => exact .inl (.edge present)
  | @through first via last present small _ ih =>
      rcases Nat.lt_succ_iff_lt_or_eq.mp small with small | rfl
      · rcases ih with rest | ⟨toBound, rest⟩
        · exact .inl (.through present small rest)
        · exact .inr ⟨.through present small toBound, rest⟩
      · rcases ih with rest | ⟨_, rest⟩
        · exact .inr ⟨.edge present, rest⟩
        · exact .inr ⟨.edge present, rest⟩

theorem fill (symmetric : ∀ i k, adjacent i k → adjacent k i)
    (path : PathBelow adjacent bound first last) (small : bound ≤ first)
    (below : first < last) : Fill adjacent first last := by
  induction bound generalizing first last with
  | zero =>
      cases path with
      | edge present => exact .entry below present
      | through _ small => exact absurd small (Nat.not_lt_zero _)
  | succ bound ih =>
      -- The largest vertex between the ends splits the path, and both halves
      -- are entries of the factor in the column of that vertex.
      rcases path.split with path | ⟨left, right⟩
      · exact ih path (Nat.le_of_succ_le small) below
      · have leftFill : Fill adjacent bound first :=
          ih (left.symm symmetric) (Nat.le_refl _) small
        have rightFill : Fill adjacent bound last :=
          ih right (Nat.le_refl _) (Nat.lt_trans small below)
        exact .join below leftFill rightFill

end PathBelow

theorem Fill.path (symmetric : ∀ i k, adjacent i k → adjacent k i)
    {col row : Nat} (fill : Fill adjacent col row) :
    PathBelow adjacent col col row := by
  induction fill with
  | entry _ present => exact .edge present
  | @join col low high below left _ ihLeft ihRight =>
      have small := Nat.le_of_lt left.lt
      exact ((ihLeft.symm symmetric).mono small).trans left.lt
        (ihRight.mono small)

/-- Entries of the factor are the pairs joined by a path through vertices
smaller than both. -/
theorem fill_iff_path (symmetric : ∀ i k, adjacent i k → adjacent k i)
    {col row : Nat} :
    Fill adjacent col row ↔ col < row ∧ PathBelow adjacent col col row :=
  ⟨fun fill => ⟨fill.lt, fill.path symmetric⟩,
    fun ⟨below, path⟩ => path.fill symmetric (Nat.le_refl _) below⟩

theorem IsParent.lt {col row : Nat} (parent : IsParent adjacent col row) :
    col < row :=
  parent.1.lt

theorem IsParent.unique {col row other : Nat}
    (parent : IsParent adjacent col row)
    (parent' : IsParent adjacent col other) : row = other :=
  Nat.le_antisymm (parent.2 other parent'.1) (parent'.2 row parent.1)

theorem Fill.exists_parent {col row : Nat} (fill : Fill adjacent col row) :
    ∃ first, IsParent adjacent col first ∧ first ≤ row := by
  classical
  have found : ∃ row, Fill adjacent col row := ⟨row, fill⟩
  exact ⟨Nat.find found, ⟨Nat.find_spec found, fun _ => Nat.find_min' found⟩,
    Nat.find_min' found fill⟩

theorem Fill.of_parent {col row first : Nat} (fill : Fill adjacent col row)
    (parent : IsParent adjacent col first) :
    first = row ∨ Fill adjacent first row := by
  rcases Nat.eq_or_lt_of_le (parent.2 row fill) with rfl | below
  · exact .inl rfl
  · exact .inr (.join below parent.1 fill)

theorem le_of_climbs {low high : Nat} (climbs : Climbs adjacent low high) :
    low ≤ high := by
  induction climbs with
  | refl => exact Nat.le_refl _
  | tail _ parent ih => exact Nat.le_trans ih (Nat.le_of_lt parent.lt)

theorem climbs_total {start left right : Nat}
    (toLeft : Climbs adjacent start left)
    (toRight : Climbs adjacent start right) :
    Climbs adjacent left right ∨ Climbs adjacent right left :=
  ReflTransGen.total_of_right_unique
    (fun _ _ _ parent parent' => parent.unique parent') toLeft toRight

theorem climbs_of_parent {first parent last : Nat}
    (isParent : IsParent adjacent first parent)
    (climbs : Climbs adjacent first last) (past : first ≠ last) :
    Climbs adjacent parent last := by
  rcases ReflTransGen.cases_head climbs with same | ⟨next, step, rest⟩
  · exact absurd same past
  · rw [isParent.unique step]
    exact rest

theorem Fill.climbs {col row : Nat} (fill : Fill adjacent col row) :
    Climbs adjacent col row := by
  obtain ⟨first, parent, _⟩ := fill.exists_parent
  rcases fill.of_parent parent with rfl | above
  · exact .single parent
  · -- The first row is closer to `row`, which lies in its column as well.
    have := parent.lt
    have := above.lt
    exact .head parent above.climbs
termination_by row - col

theorem Fill.of_climbs {col row node : Nat} (fill : Fill adjacent col row)
    (climbs : Climbs adjacent col node) (below : node < row) :
    Fill adjacent node row := by
  induction climbs with
  | refl => exact fill
  | tail _ parent ih =>
      rcases (ih (Nat.lt_trans parent.lt below)).of_parent parent with
        rfl | above
      · exact absurd below (Nat.lt_irrefl _)
      · exact above

/-- A row of the factor consists of what the entries of the matrix in that row
reach by climbing the tree. -/
theorem fill_iff_climbs {col row : Nat} :
    Fill adjacent col row ↔
      col < row ∧ ∃ start, start < row ∧ adjacent start row ∧
        Climbs adjacent start col := by
  constructor
  · intro fill
    refine ⟨fill.lt, ?_⟩
    induction fill with
    | entry below present => exact ⟨_, below, present, .refl⟩
    | @join col low high _ left right _ ih =>
        obtain ⟨start, small, present, climbs⟩ := ih
        exact ⟨start, small, present, climbs.trans left.climbs⟩
  · rintro ⟨below, start, small, present, climbs⟩
    exact (Fill.entry small present).of_climbs climbs below

end QuasiDefinite.Elimination
