import QuasiDefinite.Elimination.Tree
import QuasiDefinite.Proofs.Checked
import QuasiDefinite.Proofs.Elimination.Fill

/-!
The elimination tree as it is computed. Main statement: the parents found by
climbing shortcuts are the first rows of the columns of the factor
(`tree_runs`). Redirecting the shortcuts never changes a parent.
-/

namespace QuasiDefinite.Elimination

/-- The columns of an upper triangle are those of `adjacent`, each with its
diagonal entry. -/
def UpperColumns (adjacent : Nat → Nat → Prop) (size : Nat)
    (upper : Compressed) : Prop :=
  ∀ col, col < size → ∃ rows, upper.list col = .ok rows ∧
    ∀ row, row ∈ rows ↔ row = col ∨ row < col ∧ adjacent row col

namespace Forest

variable {adjacent : Nat → Nat → Prop} {size col : Nat} {forest : Forest}

/-- The forest knows the parents below `col`, and of the others it holds none
that is wrong. A shortcut leads up the tree, at most to `col`. -/
structure Knows (adjacent : Nat → Nat → Prop) (size col : Nat)
    (forest : Forest) : Prop where
  parent_size : forest.parent.size = size
  shortcut_size : forest.shortcut.size = size
  parent_sound : ∀ node row : Nat, forest.parent[node]? = some (some row) →
    IsParent adjacent node row
  parent_complete : ∀ node row : Nat, node < size → row < col →
    IsParent adjacent node row → forest.parent[node]? = some (some row)
  same_roots : ∀ node : Nat, forest.shortcut[node]? = some none →
    forest.parent[node]? = some none
  shortcut_sound : ∀ node target : Nat,
    forest.shortcut[node]? = some (some target) →
      node < target ∧ target ≤ col ∧ Climbs adjacent node target

/-- The child of `col` above `node` is known to be one. -/
def Settled (adjacent : Nat → Nat → Prop) (col : Nat) (forest : Forest)
    (node : Nat) : Prop :=
  ∀ child : Nat, Climbs adjacent node child →
    IsParent adjacent child col →
    forest.parent[child]? = some (some col)

def Tidy (adjacent : Nat → Nat → Prop) (col : Nat) (forest : Forest) : Prop :=
  ∀ node : Nat, forest.shortcut[node]? = some (some col) →
    Settled adjacent col forest node

/-- While a climb is at `node`, the shortcuts it has redirected already are
justified only once it has reached the root. -/
def TidyExcept (adjacent : Nat → Nat → Prop) (col : Nat) (forest : Forest)
    (node : Nat) : Prop :=
  ∀ other : Nat, forest.shortcut[other]? = some (some col) →
    Settled adjacent col forest other ∨
      other < node ∧ node < col ∧ Climbs adjacent other node

theorem eq_of_climbs_child {node child : Nat}
    (climbs : Climbs adjacent node child) (last : IsParent adjacent child col)
    (isParent : IsParent adjacent node col) : node = child := by
  by_contra past
  have above := le_of_climbs (climbs_of_parent isParent climbs past)
  exact absurd last.lt (Nat.not_lt.mpr above)

theorem Settled.of_climbs {node other : Nat}
    (settled : Settled adjacent col forest node)
    (climbs : Climbs adjacent other node) (below : node < col) :
    Settled adjacent col forest other := by
  intro child toChild last
  rcases climbs_total climbs toChild with up | down
  · exact settled child up last
  · by_cases same : child = node
    · exact settled child (same ▸ .refl) last
    · have above := le_of_climbs (climbs_of_parent last down same)
      exact absurd below (Nat.not_lt.mpr above)

theorem isolated_knows : Knows adjacent size 0 (isolated size) where
  parent_size := by simp [isolated]
  shortcut_size := by simp [isolated]
  parent_sound := by
    intro node row found
    simp [isolated, Array.getElem?_replicate] at found
  parent_complete := by
    intro node row _ small
    exact absurd small (Nat.not_lt_zero _)
  same_roots := by
    intro node found
    simpa [isolated] using found
  shortcut_sound := by
    intro node target found
    simp [isolated, Array.getElem?_replicate] at found

theorem isolated_tidy : Tidy adjacent 0 (isolated size) := by
  intro node found
  simp [isolated, Array.getElem?_replicate] at found

theorem Knows.redirect (knows : Knows adjacent size col forest) {node : Nat}
    (fill : Fill adjacent node col) :
    Knows adjacent size col
      ⟨forest.parent, forest.shortcut.setIfInBounds node (some col)⟩ where
  parent_size := knows.parent_size
  shortcut_size := by simpa using knows.shortcut_size
  parent_sound := knows.parent_sound
  parent_complete := knows.parent_complete
  same_roots := by
    intro other found
    rw [Array.getElem?_setIfInBounds] at found
    split at found
    · split at found <;> simp at found
    · exact knows.same_roots other found
  shortcut_sound := by
    intro other target found
    rw [Array.getElem?_setIfInBounds] at found
    split at found
    · next same =>
      subst same
      split at found
      · simp only [Option.some.injEq] at found
        subst found
        exact ⟨fill.lt, Nat.le_refl _, fill.climbs⟩
      · simp at found
    · exact knows.shortcut_sound other target found

theorem Knows.link (knows : Knows adjacent size col forest) {node : Nat}
    (isParent : IsParent adjacent node col) :
    Knows adjacent size col
      ⟨forest.parent.setIfInBounds node (some col),
        forest.shortcut.setIfInBounds node (some col)⟩ where
  parent_size := by simpa using knows.parent_size
  shortcut_size := by simpa using knows.shortcut_size
  parent_sound := by
    intro other row found
    rw [Array.getElem?_setIfInBounds] at found
    split at found
    · next same =>
      subst same
      split at found
      · simp only [Option.some.injEq] at found
        exact found ▸ isParent
      · simp at found
    · exact knows.parent_sound other row found
  parent_complete := by
    intro other row inside below parent
    rw [Array.getElem?_setIfInBounds]
    split
    · next same =>
      subst same
      exact absurd below (by simp [parent.unique isParent])
    · exact knows.parent_complete other row inside below parent
  same_roots := by
    intro other found
    rw [Array.getElem?_setIfInBounds] at found ⊢
    split at found
    · split at found <;> simp at found
    · next differs =>
      rw [if_neg differs]
      exact knows.same_roots other found
  shortcut_sound := by
    intro other target found
    rw [Array.getElem?_setIfInBounds] at found
    split at found
    · next same =>
      subst same
      split at found
      · simp only [Option.some.injEq] at found
        subst found
        exact ⟨isParent.lt, Nat.le_refl _, isParent.1.climbs⟩
      · simp at found
    · exact knows.shortcut_sound other target found

theorem Knows.isParent_of_root (knows : Knows adjacent size col forest)
    {node : Nat} (inside : node < size) (fill : Fill adjacent node col)
    (root : forest.parent[node]? = some none) :
    IsParent adjacent node col := by
  obtain ⟨row, parent, le⟩ := fill.exists_parent
  rcases Nat.eq_or_lt_of_le le with rfl | below
  · exact parent
  · have found := knows.parent_complete node row inside below parent
    rw [root] at found
    simp at found

structure Attached (adjacent : Nat → Nat → Prop) (size col : Nat)
    (forest : Forest) (node : Nat) (new : Forest) : Prop where
  knows : Knows adjacent size col new
  tidy : Tidy adjacent col new
  keeps : ∀ other : Nat, forest.shortcut[other]? = some (some col) →
    new.shortcut[other]? = some (some col)
  reaches : node < col → new.shortcut[node]? = some (some col)

theorem shortcut_set_self (inside : col < size) {node : Nat}
    (knows : Knows adjacent size col forest) (below : node < col) :
    (forest.shortcut.setIfInBounds node (some col))[node]? =
      some (some col) := by
  apply Array.getElem?_setIfInBounds_self_of_lt
  rw [knows.shortcut_size]
  exact Nat.lt_trans below inside

theorem shortcut_set_keeps {node other : Nat}
    (found : forest.shortcut[other]? = some (some col)) :
    (forest.shortcut.setIfInBounds node (some col))[other]? =
      some (some col) := by
  rw [Array.getElem?_setIfInBounds]
  split
  · next same =>
    subst same
    rw [if_pos (Array.getElem?_eq_some_iff.mp found).1]
  · exact found

theorem Knows.attached_root (knows : Knows adjacent size col forest)
    {node : Nat} (inside : col < size) (isParent : IsParent adjacent node col)
    (tidy : TidyExcept adjacent col forest node) :
    Attached adjacent size col forest node
      ⟨forest.parent.setIfInBounds node (some col),
        forest.shortcut.setIfInBounds node (some col)⟩ where
  knows := knows.link isParent
  tidy := by
    intro other found child climbs last
    have linked : (forest.parent.setIfInBounds node (some col))[node]? =
        some (some col) := by
      apply Array.getElem?_setIfInBounds_self_of_lt
      rw [knows.parent_size]
      exact Nat.lt_trans isParent.lt inside
    by_cases same : node = child
    · exact same ▸ linked
    · rw [Array.getElem?_setIfInBounds_ne same]
      by_cases here : node = other
      · subst here
        exact absurd (eq_of_climbs_child climbs last isParent) same
      · rw [Array.getElem?_setIfInBounds_ne here] at found
        rcases tidy other found with settled | ⟨_, _, passed⟩
        · exact settled child climbs last
        · rcases climbs_total passed climbs with up | down
          · exact absurd (eq_of_climbs_child up last isParent) same
          · exact absurd (eq_of_climbs_child down isParent last).symm same
  keeps := fun _ found => shortcut_set_keeps found
  reaches := shortcut_set_self inside knows

theorem TidyExcept.redirect {node next : Nat}
    (tidy : TidyExcept adjacent col forest node)
    (linked : forest.shortcut[node]? = some (some next))
    (below : node < col) (above : node < next) (le : next ≤ col)
    (climbs : Climbs adjacent node next) :
    TidyExcept adjacent col
      ⟨forest.parent, forest.shortcut.setIfInBounds node (some col)⟩ next := by
  intro other found
  rcases Nat.eq_or_lt_of_le le with rfl | small
  · left
    have settled : Settled adjacent next forest node := by
      rcases tidy node linked with settled | ⟨absurd', _⟩
      · exact settled
      · exact absurd absurd' (Nat.lt_irrefl _)
    by_cases here : node = other
    · exact here ▸ settled
    · rw [Array.getElem?_setIfInBounds_ne here] at found
      rcases tidy other found with settled | ⟨_, _, passed⟩
      · exact settled
      · exact settled.of_climbs passed below
  · by_cases here : node = other
    · exact .inr ⟨here ▸ above, small, here ▸ climbs⟩
    · rw [Array.getElem?_setIfInBounds_ne here] at found
      rcases tidy other found with settled | ⟨less, _, passed⟩
      · exact .inl settled
      · exact .inr ⟨Nat.lt_trans less above, small, passed.trans climbs⟩

/-- A climb from a node whose column holds `col`. The recursive call is at a
node further up, with the shortcut of this node redirected. -/
theorem attach_runs {forest : Forest} {node : Nat}
    (knows : Knows adjacent size col forest)
    (inside : col < size) (member : node = col ∨ Fill adjacent node col)
    (tidy : TidyExcept adjacent col forest node) :
    ∃ new, attach col forest node = .ok new ∧
      Attached adjacent size col forest node new := by
  unfold attach
  split
  · next below =>
    have fill : Fill adjacent node col :=
      member.resolve_left (Nat.ne_of_lt below)
    have insideNode : node < size := Nat.lt_trans below inside
    have insideShortcut : node < forest.shortcut.size := by
      rwa [knows.shortcut_size]
    rw [Checked.get_eq_ok insideShortcut, Checked.ok_bind,
      Checked.set_eq_ok_iff.mpr ⟨insideShortcut, rfl⟩, Checked.ok_bind]
    cases found : forest.shortcut[node] with
    | none =>
        have atRoot : forest.shortcut[node]? = some none :=
          Array.getElem?_eq_some_iff.mpr ⟨insideShortcut, found⟩
        have insideParent : node < forest.parent.size := by
          rwa [knows.parent_size]
        have isParent := knows.isParent_of_root insideNode fill
          (knows.same_roots node atRoot)
        dsimp only
        rw [Checked.set_eq_ok_iff.mpr ⟨insideParent, rfl⟩]
        exact ⟨_, rfl, knows.attached_root inside isParent tidy⟩
    | some next =>
        have linked : forest.shortcut[node]? = some (some next) :=
          Array.getElem?_eq_some_iff.mpr ⟨insideShortcut, found⟩
        obtain ⟨above, le, climbs⟩ := knows.shortcut_sound node next linked
        have member' : next = col ∨ Fill adjacent next col := by
          rcases Nat.eq_or_lt_of_le le with same | small
          · exact .inl same
          · exact .inr (fill.of_climbs climbs small)
        obtain ⟨new, ran, attached⟩ := attach_runs (knows.redirect fill) inside
          member' (tidy.redirect linked below above le climbs)
        dsimp only
        rw [dif_pos above]
        refine ⟨new, ran, attached.knows, attached.tidy, ?_, ?_⟩
        · intro other found
          exact attached.keeps other (shortcut_set_keeps found)
        · intro _
          exact attached.keeps node (shortcut_set_self inside knows below)
  · next above =>
    refine ⟨forest, rfl, knows, ?_, fun _ found => found,
      fun below => absurd below above⟩
    intro other found
    rcases tidy other found with settled | ⟨_, below, _⟩
    · exact settled
    · exact absurd below above
termination_by col - node

theorem addColumn_runs {upper : Compressed}
    (columns : UpperColumns adjacent size upper)
    (knows : Knows adjacent size col forest) (inside : col < size)
    (tidy : Tidy adjacent col forest) :
    ∃ new, addColumn upper forest col = .ok new ∧
      Knows adjacent size (col + 1) new ∧ Tidy adjacent (col + 1) new := by
  obtain ⟨rows, listed, mem_rows⟩ := columns col inside
  obtain ⟨new, ran, knows', tidy', reached⟩ :=
    @Checked.foldlM_runs _ _ _ (attach col) rows
      (fun done forest => Knows adjacent size col forest ∧
        Tidy adjacent col forest ∧ ∀ node ∈ done, node < col →
          forest.shortcut[node]? = some (some col))
      forest ⟨knows, tidy, by simp⟩ (by
        rintro done node rest state split ⟨knows, tidy, reached⟩
        have member : node = col ∨ Fill adjacent node col := by
          have listed : node ∈ rows := by simp [split]
          rcases (mem_rows node).mp listed with same | ⟨below, present⟩
          · exact .inl same
          · exact .inr (.entry below present)
        obtain ⟨next, ran, attached⟩ := attach_runs knows inside member
          fun other found => .inl (tidy other found)
        refine ⟨next, ran, attached.knows, attached.tidy, ?_⟩
        intro other member below
        rcases List.mem_append.mp member with old | new
        · exact attached.keeps other (reached other old below)
        · rw [List.mem_singleton.mp new] at below ⊢
          exact attached.reaches below)
  refine ⟨new, by rw [addColumn, listed, Checked.ok_bind, ran], ?_, ?_⟩
  · refine { knows' with parent_complete := ?_, shortcut_sound := ?_ }
    · intro node row insideNode below parent
      rcases Nat.lt_succ_iff_lt_or_eq.mp below with below | rfl
      · exact knows'.parent_complete node row insideNode below parent
      · obtain ⟨_, start, small, present, climbs⟩ :=
          fill_iff_climbs.mp parent.1
        have listed : start ∈ rows :=
          (mem_rows start).mpr (.inr ⟨small, present⟩)
        exact tidy' start (reached start listed small) node climbs parent
    · intro node target found
      obtain ⟨above, le, climbs⟩ := knows'.shortcut_sound node target found
      exact ⟨above, Nat.le_succ_of_le le, climbs⟩
  · intro node found
    have le := (knows'.shortcut_sound node (col + 1) found).2.1
    exact absurd le (Nat.not_succ_le_self _)

end Forest

structure Parents (adjacent : Nat → Nat → Prop) (size : Nat)
    (parent : Array (Option Nat)) : Prop where
  size_eq : parent.size = size
  sound : ∀ node row : Nat, parent[node]? = some (some row) →
    IsParent adjacent node row
  complete : ∀ node row : Nat, row < size → IsParent adjacent node row →
    parent[node]? = some (some row)

theorem tree_runs {adjacent : Nat → Nat → Prop} {size : Nat}
    {upper : Compressed} (columns : UpperColumns adjacent size upper) :
    ∃ parent, tree size upper = .ok parent ∧ Parents adjacent size parent := by
  obtain ⟨forest, ran, knows, _⟩ :=
    @Checked.foldlM_range_runs _ _ (Forest.addColumn upper) size
      (fun col forest => Forest.Knows adjacent size col forest ∧
        Forest.Tidy adjacent col forest)
      (.isolated size) ⟨Forest.isolated_knows, Forest.isolated_tidy⟩
      (by
        rintro col forest inside ⟨knows, tidy⟩
        exact Forest.addColumn_runs columns knows inside tidy)
  refine ⟨forest.parent, by rw [tree, ran]; rfl, knows.parent_size,
    knows.parent_sound, ?_⟩
  intro node row inside parent
  exact knows.parent_complete node row (Nat.lt_trans parent.lt inside) inside
    parent

end QuasiDefinite.Elimination
