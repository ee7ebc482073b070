import QuasiDefinite.Proofs.Elimination.Tree

/-!
The elimination tree without shortcuts. Climbing from parent to parent finds
the same tree as climbing by shortcuts that are redirected on the way
(`plainTree_eq`): what a column gains depends on the tree found so far, and not
on how fast its roots are reached.
-/

namespace QuasiDefinite.Elimination

/-- Climbs from `node` by the parents found so far and makes the root a child
of `col`. -/
def hang (col : Nat) (parent : Array (Option Nat)) (node : Nat) :
    Checked (Array (Option Nat)) :=
  if _ : node < col then do
    match ← Checked.get parent node with
    | none => Checked.set parent node (some col)
    | some next =>
        if _ : node < next then hang col parent next
        else throw (.notAscending node next)
  else return parent
termination_by col - node

def hangColumn (upper : Compressed) (parent : Array (Option Nat))
    (col : Nat) : Checked (Array (Option Nat)) := do
  (← upper.list col).foldlM (hang col) parent

def plainTree (size : Nat) (upper : Compressed) :
    Checked (Array (Option Nat)) :=
  (List.range size).foldlM (hangColumn upper) (.replicate size none)

variable {adjacent : Nat → Nat → Prop} {size col : Nat}
  {parent : Array (Option Nat)}

/-- The parents below `col` are known, and of the others none is wrong. -/
structure ParentsBelow (adjacent : Nat → Nat → Prop) (size col : Nat)
    (parent : Array (Option Nat)) : Prop where
  size_eq : parent.size = size
  sound : ∀ node row : Nat, parent[node]? = some (some row) →
    IsParent adjacent node row
  complete : ∀ node row : Nat, row < col → IsParent adjacent node row →
    parent[node]? = some (some row)

/-- The child of `col` above `node` is known to be one. -/
def Hangs (adjacent : Nat → Nat → Prop) (col : Nat)
    (parent : Array (Option Nat)) (node : Nat) : Prop :=
  ∀ child, Climbs adjacent node child → IsParent adjacent child col →
    parent[child]? = some (some col)

theorem hangs_self : Hangs adjacent col parent col := by
  intro child climbs last
  exact absurd last.lt (Nat.not_lt.mpr (le_of_climbs climbs))

theorem Hangs.of_parent {node next : Nat}
    (found : parent[node]? = some (some next))
    (isParent : IsParent adjacent node next)
    (hangs : Hangs adjacent col parent next) :
    Hangs adjacent col parent node := by
  intro child climbs last
  by_cases here : node = child
  · subst here
    rw [found, isParent.unique last]
  · exact hangs child (climbs_of_parent isParent climbs here) last

theorem ParentsBelow.isParent_of_root
    (below : ParentsBelow adjacent size col parent) {node : Nat}
    (fill : Fill adjacent node col) (root : parent[node]? = some none) :
    IsParent adjacent node col := by
  obtain ⟨row, isParent, le⟩ := fill.exists_parent
  rcases Nat.eq_or_lt_of_le le with rfl | small
  · exact isParent
  · have found := below.complete node row small isParent
    rw [root] at found
    cases found

theorem ParentsBelow.link (below : ParentsBelow adjacent size col parent)
    {node : Nat} (isParent : IsParent adjacent node col) :
    ParentsBelow adjacent size col
      (parent.setIfInBounds node (some col)) where
  size_eq := by simpa using below.size_eq
  sound := by
    intro other row found
    rw [Array.getElem?_setIfInBounds] at found
    split at found
    · next same =>
      subst same
      split at found
      · cases found
        exact isParent
      · cases found
    · exact below.sound other row found
  complete := by
    intro other row small isParent'
    rw [Array.getElem?_setIfInBounds_ne]
    · exact below.complete other row small isParent'
    · intro same
      subst same
      exact Nat.ne_of_lt small (isParent'.unique isParent)

def Extends (parent new : Array (Option Nat)) : Prop :=
  ∀ node row : Nat, parent[node]? = some (some row) →
    new[node]? = some (some row)

theorem Hangs.extend {new : Array (Option Nat)} {node : Nat}
    (extended : Extends parent new) (hangs : Hangs adjacent col parent node) :
    Hangs adjacent col new node :=
  fun child climbs last => extended child col (hangs child climbs last)

theorem extends_link {node : Nat} (root : parent[node]? = some none) :
    Extends parent (parent.setIfInBounds node (some col)) := by
  intro other row found
  rw [Array.getElem?_setIfInBounds_ne]
  · exact found
  · intro same
    subst same
    rw [root] at found
    cases found

/-- A climb from a node whose column holds `col` keeps what is known, and
afterwards the child of `col` above the node is known as well. -/
theorem hang_runs (inside : col < size)
    (below : ParentsBelow adjacent size col parent) {node : Nat}
    (member : node = col ∨ Fill adjacent node col) :
    ∃ new, hang col parent node = .ok new ∧
      ParentsBelow adjacent size col new ∧ Hangs adjacent col new node ∧
      Extends parent new := by
  unfold hang
  split
  · next small =>
    have fill : Fill adjacent node col :=
      member.resolve_left (Nat.ne_of_lt small)
    have insideNode : node < parent.size := by
      rw [below.size_eq]
      exact Nat.lt_trans small inside
    rw [Checked.get_eq_ok insideNode, Checked.ok_bind]
    cases held : parent[node] with
    | none =>
        have root : parent[node]? = some none :=
          Array.getElem?_eq_some_iff.mpr ⟨insideNode, held⟩
        have isParent := below.isParent_of_root fill root
        dsimp only
        rw [Checked.set_eq_ok_iff.mpr ⟨insideNode, rfl⟩]
        refine ⟨_, rfl, below.link isParent, ?_, extends_link root⟩
        exact hangs_self.of_parent
          (Array.getElem?_setIfInBounds_self_of_lt insideNode) isParent
    | some next =>
        have found : parent[node]? = some (some next) :=
          Array.getElem?_eq_some_iff.mpr ⟨insideNode, held⟩
        have isParent := below.sound node next found
        have above : node < next := isParent.lt
        obtain ⟨new, ran, below', hangs, extended⟩ :=
          hang_runs inside below (fill.of_parent isParent)
        dsimp only
        rw [dif_pos above]
        exact ⟨new, ran, below',
          hangs.of_parent (extended node next found) isParent, extended⟩
  · next large =>
    have same : node = col := member.resolve_right fun fill => large fill.lt
    exact ⟨parent, rfl, below, same ▸ hangs_self, fun _ _ found => found⟩
termination_by col - node

theorem hangColumn_runs {upper : Compressed}
    (columns : UpperColumns adjacent size upper) (inside : col < size)
    (below : ParentsBelow adjacent size col parent) :
    ∃ new, hangColumn upper parent col = .ok new ∧
      ParentsBelow adjacent size (col + 1) new := by
  obtain ⟨rows, listed, mem_rows⟩ := columns col inside
  obtain ⟨new, ran, below', hung⟩ :=
    @Checked.foldlM_runs _ _ _ (hang col) rows
      (fun done parent => ParentsBelow adjacent size col parent ∧
        ∀ node ∈ done, Hangs adjacent col parent node)
      parent ⟨below, by simp⟩ (by
        rintro done node rest parent split ⟨below, hung⟩
        have member : node = col ∨ Fill adjacent node col := by
          have listed : node ∈ rows := by simp [split]
          rcases (mem_rows node).mp listed with same | ⟨small, present⟩
          · exact .inl same
          · exact .inr (.entry small present)
        obtain ⟨next, ran, below, hangs, extended⟩ :=
          hang_runs inside below member
        refine ⟨next, ran, below, fun other member => ?_⟩
        rcases List.mem_append.mp member with old | last
        · exact (hung other old).extend extended
        · exact List.mem_singleton.mp last ▸ hangs)
  refine ⟨new, by rw [hangColumn, listed, Checked.ok_bind, ran],
    { below' with complete := ?_ }⟩
  intro node row small isParent
  rcases Nat.lt_succ_iff_lt_or_eq.mp small with small | rfl
  · exact below'.complete node row small isParent
  · -- An entry of the matrix in the row climbs to every child of the row.
    obtain ⟨_, start, small, present, climbs⟩ := fill_iff_climbs.mp isParent.1
    have listed : start ∈ rows := (mem_rows start).mpr (.inr ⟨small, present⟩)
    exact hung start listed node climbs isParent

theorem plainTree_runs {upper : Compressed}
    (columns : UpperColumns adjacent size upper) :
    ∃ parent, plainTree size upper = .ok parent ∧
      Parents adjacent size parent := by
  obtain ⟨parent, ran, below⟩ :=
    @Checked.foldlM_range_runs _ _ (hangColumn upper) size
      (ParentsBelow adjacent size) (.replicate size none)
      (by
        refine ⟨by simp, fun node row found => ?_, fun node row small => ?_⟩
        · simp [Array.getElem?_replicate] at found
        · exact absurd small (Nat.not_lt_zero _))
      fun col parent inside below => hangColumn_runs columns inside below
  exact ⟨parent, ran, below.size_eq, below.sound, below.complete⟩

namespace Parents

theorem getElem?_eq_some_iff (parents : Parents adjacent size parent)
    (bounded : ∀ node row, IsParent adjacent node row → row < size)
    {node row : Nat} :
    parent[node]? = some (some row) ↔ IsParent adjacent node row :=
  ⟨parents.sound node row, fun isParent =>
    parents.complete node row (bounded node row isParent) isParent⟩

theorem unique {other : Array (Option Nat)}
    (parents : Parents adjacent size parent)
    (parents' : Parents adjacent size other)
    (bounded : ∀ node row, IsParent adjacent node row → row < size) :
    parent = other := by
  refine Checked.ext_of_size parents.size_eq parents'.size_eq
    fun node inside => ?_
  have same (row : Nat) : parent[node]? = some (some row) ↔
      other[node]? = some (some row) :=
    (parents.getElem?_eq_some_iff bounded).trans
      (parents'.getElem?_eq_some_iff bounded).symm
  rw [Array.getElem?_eq_getElem (parents.size_eq.symm ▸ inside),
    Array.getElem?_eq_getElem (parents'.size_eq.symm ▸ inside)] at same ⊢
  exact congrArg some (Option.ext fun row => by simpa using same row)

end Parents

/-- Shortcuts change nothing about the tree. -/
theorem plainTree_eq {upper : Compressed}
    (columns : UpperColumns adjacent size upper)
    (bounded : ∀ node row, IsParent adjacent node row → row < size) :
    plainTree size upper = tree size upper := by
  obtain ⟨parent, ran, parents⟩ := plainTree_runs columns
  obtain ⟨parent', ran', parents'⟩ := tree_runs columns
  rw [ran, ran', parents.unique parents' bounded]

end QuasiDefinite.Elimination
