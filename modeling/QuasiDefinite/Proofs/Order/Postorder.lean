import Mathlib.Data.Fintype.EquivFin
import Mathlib.Data.List.Flatten
import Mathlib.Data.List.Nodup
import Mathlib.Data.List.Perm.Basic
import QuasiDefinite.Order.MinimumDegree

/-!
Final orders. Where the links from node to node form a forest, its postorder
lists every node once, and so does the final order of a graph, which puts each
variable before the element that eliminated it (`Forest.finalOrder_perm`).
-/

namespace QuasiDefinite.QuotientGraph

variable {above : Nat → Option Nat} {size level level' node next : Nat}

/-! Nodes by the number of links to the root of their tree. -/

inductive Level (above : Nat → Option Nat) : Nat → Nat → Prop where
  | root {node : Nat} (top : above node = none) : Level above 0 node
  | under {node next level : Nat} (link : above node = some next)
      (rest : Level above level next) : Level above (level + 1) node

theorem Level.unique (first : Level above level node)
    (second : Level above level' node) : level = level' := by
  induction first generalizing level' with
  | root top =>
      cases second with
      | root => rfl
      | under link _ => simp [top] at link
  | under link _ ih =>
      cases second with
      | root top => simp [link] at top
      | under link' rest' =>
          obtain rfl := Option.some.inj (link.symm.trans link')
          exact congrArg Nat.succ (ih rest')

theorem Level.exists_at (found : Level above level node)
    (bounded : ∀ node next, above node = some next → next < size)
    (inside : node < size) {lower : Nat} (le : lower ≤ level) :
    ∃ node' < size, Level above lower node' := by
  induction found with
  | root top =>
      obtain rfl := Nat.le_zero.mp le
      exact ⟨_, inside, .root top⟩
  | @under node next level link rest ih =>
      cases Nat.lt_or_eq_of_le le with
      | inl lt => exact ih (bounded _ _ link) (Nat.le_of_lt_succ lt)
      | inr same =>
          subst same
          exact ⟨node, inside, .under link rest⟩

/-- No tree is deeper than there are nodes, since the nodes on the way up lie on
different levels. -/
theorem Level.lt (found : Level above level node)
    (bounded : ∀ node next, above node = some next → next < size)
    (inside : node < size) : level < size := by
  have each (lower : Fin (level + 1)) : ∃ node' : Fin size,
      Level above lower node' := by
    obtain ⟨node', small, there⟩ :=
      found.exists_at bounded inside (Nat.le_of_lt_succ lower.isLt)
    exact ⟨⟨node', small⟩, there⟩
  choose visit visits using each
  have injective : Function.Injective visit := by
    intro lower lower' same
    have there := visits lower
    rw [same] at there
    exact Fin.ext (there.unique (visits lower'))
  have card := Fintype.card_le_of_injective visit injective
  rwa [Fintype.card_fin, Fintype.card_fin] at card

/-! Grouping nodes by an owner. -/

/-- Every node is listed under its owner, and nowhere twice. -/
structure Groups (owner : Nat → Option Nat) (size : Nat)
    (groups : Array (List Nat)) : Prop where
  mem_iff : ∀ node next, node ∈ groups.getD next [] ↔
    node < size ∧ owner node = some next
  nodup : ∀ next, (groups.getD next []).Nodup

variable {owner : Nat → Option Nat} {groups : Array (List Nat)}
  {graph : QuotientGraph}

theorem groupBy_getElem? (next : Nat) : (graph.groupBy owner)[next]? =
    if next < graph.size then
      some ((List.range graph.size).filter (owner · = some next))
    else none := by
  unfold groupBy
  induction List.range graph.size with
  | nil =>
      rw [List.foldr_nil, Array.getElem?_replicate]
      rfl
  | cons node nodes ih =>
      rw [List.foldr_cons]
      cases owned : owner node with
      | none => simpa [owned] using ih
      | some other =>
          simp only [Array.getElem?_modify, ih]
          by_cases same : other = next
          · simp [owned, same]
          · simp [owned, same]

theorem groupBy_groups
    (bounded : ∀ node next, owner node = some next → next < graph.size) :
    Groups owner graph.size (graph.groupBy owner) where
  mem_iff := by
    intro node next
    rw [Array.getD_eq_getD_getElem?, groupBy_getElem?]
    split
    · simp
    · next outside =>
      apply iff_of_false (by simp)
      intro ⟨_, owned⟩
      exact outside (bounded node next owned)
  nodup := by
    intro next
    rw [Array.getD_eq_getD_getElem?, groupBy_getElem?]
    split
    · exact List.nodup_range.filter _
    · exact List.nodup_nil

theorem foldl_pick_mem {pick : Nat → Nat → Nat}
    (picks : ∀ best node, pick best node = best ∨ pick best node = node)
    (head : Nat) (rest : List Nat) : rest.foldl pick head ∈ head :: rest := by
  induction rest generalizing head with
  | nil => simp
  | cons node rest ih =>
      rw [List.foldl_cons]
      have member := ih (pick head node)
      cases picks head node with
      | inl same =>
          rw [same] at member ⊢
          simp only [List.mem_cons] at member ⊢
          exact member.imp_right .inr
      | inr same =>
          rw [same] at member ⊢
          exact List.mem_cons_of_mem head member

theorem largestLast_perm {nodes : List Nat} (nodup : nodes.Nodup) :
    (graph.largestLast nodes).Perm nodes := by
  cases nodes with
  | nil => rfl
  | cons head rest =>
      unfold largestLast
      dsimp only
      generalize picked : rest.foldl _ head = largest
      have member : largest ∈ head :: rest := by
        rw [← picked]
        apply foldl_pick_mem
        intro best node
        split
        · exact .inr rfl
        · exact .inl rfl
      have erased := List.perm_cons_erase member
      rw [nodup.erase_eq_filter] at erased
      apply (List.perm_append_singleton largest _).trans
      apply List.Perm.trans _ erased.symm
      apply List.Perm.of_eq
      apply congrArg (largest :: ·)
      apply List.filter_congr
      intro node _
      exact Bool.eq_iff_iff.mpr (by simp)

/-! Postorders, level by level. -/

variable {children : Array (List Nat)} {depth : Nat} {nodes : List Nat}
  {held : Nat → Prop}

theorem Groups.nodup_flatMap (grouped : Groups owner size groups)
    (nodup : nodes.Nodup) : (nodes.flatMap (groups.getD · [])).Nodup := by
  rw [List.nodup_flatMap]
  refine ⟨fun next _ => grouped.nodup next, nodup.imp ?_⟩
  intro next next' differs node member member'
  have owned := ((grouped.mem_iff node next).mp member).2
  have owned' := ((grouped.mem_iff node next').mp member').2
  exact differs (Option.some.inj (owned.symm.trans owned'))

theorem flatMap_postorder_perm :
    (nodes.flatMap (postorder children (depth + 1))).Perm
      (nodes ++ (nodes.flatMap (children.getD · [])).flatMap
        (postorder children depth)) := by
  have parts := List.flatMap_append_perm nodes
    (fun root => (children.getD root []).flatMap (postorder children depth))
    (fun root => [root])
  rw [List.flatMap_singleton', ← List.flatMap_assoc] at parts
  exact parts.symm.trans List.perm_append_comm

/-- The postorders of all nodes of one level list what lies below them, to the
given depth. -/
theorem flatMap_postorder (grouped : Groups above size children)
    (links : ∀ node next, above node = some next →
      held node ∧ next < size ∧ held next)
    (nodup : nodes.Nodup)
    (mem_iff : ∀ node, node ∈ nodes ↔
      node < size ∧ held node ∧ Level above level node) :
    (nodes.flatMap (postorder children depth)).Nodup ∧
      ∀ node, node ∈ nodes.flatMap (postorder children depth) ↔
        node < size ∧ held node ∧
          ∃ steps ≤ depth, Level above (level + steps) node := by
  induction depth generalizing nodes level with
  | zero =>
      have same : nodes.flatMap (postorder children 0) = nodes :=
        List.flatMap_singleton' nodes
      rw [same]
      simpa [mem_iff] using nodup
  | succ depth ih =>
      have below (node : Nat) : node ∈ nodes.flatMap (children.getD · []) ↔
          node < size ∧ held node ∧ Level above (level + 1) node := by
        rw [List.mem_flatMap]
        constructor
        · intro ⟨next, member, child⟩
          obtain ⟨inside, link⟩ := (grouped.mem_iff node next).mp child
          exact ⟨inside, (links node next link).1,
            .under link ((mem_iff next).mp member).2.2⟩
        · intro ⟨inside, _, there⟩
          cases there with
          | @under _ next _ link rest =>
              obtain ⟨_, inside', held'⟩ := links node next link
              exact ⟨next, (mem_iff next).mpr ⟨inside', held', rest⟩,
                (grouped.mem_iff node next).mpr ⟨inside, link⟩⟩
      obtain ⟨nodup', mem_iff'⟩ := ih (grouped.nodup_flatMap nodup) below
      have perm := @flatMap_postorder_perm children depth nodes
      constructor
      · rw [perm.nodup_iff, List.nodup_append]
        refine ⟨nodup, nodup', ?_⟩
        intro node member node' member' same
        subst same
        obtain ⟨_, _, steps, _, there⟩ := (mem_iff' node).mp member'
        have levels := ((mem_iff node).mp member).2.2.unique there
        omega
      · intro node
        rw [perm.mem_iff, List.mem_append, mem_iff, mem_iff']
        constructor
        · intro member
          cases member with
          | inl here =>
              obtain ⟨inside, holds, there⟩ := here
              exact ⟨inside, holds, 0, Nat.zero_le _, there⟩
          | inr lower =>
              obtain ⟨inside, holds, steps, le, there⟩ := lower
              refine ⟨inside, holds, steps + 1, Nat.succ_le_succ le, ?_⟩
              rwa [Nat.add_right_comm] at there
        · intro ⟨inside, holds, steps, le, there⟩
          cases steps with
          | zero => exact .inl ⟨inside, holds, there⟩
          | succ steps =>
              refine .inr ⟨inside, holds, steps, Nat.le_of_succ_le_succ le, ?_⟩
              rwa [Nat.add_right_comm]

/-- The links lead upwards and end. A node that stands for variables is linked
to another such node, and one that stands for none to a node that does or that
is linked on. -/
structure Forest (weight : Nat → Nat) (parent : Nat → Option Nat) : Prop where
  grounded : ∀ node, ∃ level, Level parent level node
  held : ∀ node next, parent node = some next → weight node ≠ 0 →
    weight next ≠ 0
  hosted : ∀ node next, parent node = some next →
    weight next ≠ 0 ∨ ∃ higher, parent next = some higher

def represents (graph : QuotientGraph) (node : Nat) : Bool :=
  graph.weightOf node ≠ 0

def treeOf (graph : QuotientGraph) (node : Nat) : Option Nat :=
  if graph.represents node then graph.parentOf node else none

/-- The node that stands for a variable which does not stand for itself. -/
def hostOf (graph : QuotientGraph) (node : Nat) : Option Nat :=
  if graph.represents node then none
  else (graph.parentOf node).map (graph.host graph.size)

theorem represents_iff :
    graph.represents node = true ↔ graph.weightOf node ≠ 0 := by
  simp [represents]

theorem lt_of_represents (sized : graph.weight.size = graph.size)
    (holds : graph.represents node = true) : node < graph.size := by
  apply Nat.lt_of_not_le
  intro outside
  simp [represents, weightOf, sized, outside] at holds

theorem lt_of_parentOf (sized : graph.parent.size = graph.size)
    (link : graph.parentOf node = some next) : node < graph.size := by
  apply Nat.lt_of_not_le
  intro outside
  simp [parentOf, sized, outside] at link

theorem Level.represents_host (forest : Forest graph.weightOf graph.parentOf)
    (found : Level graph.parentOf level node) {steps : Nat}
    (le : level ≤ steps) (hosted : graph.weightOf node ≠ 0 ∨
      ∃ next, graph.parentOf node = some next) :
    graph.represents (graph.host steps node) = true := by
  induction found generalizing steps with
  | @root node top =>
      have holds := hosted.resolve_right (by simp [top])
      cases steps with
      | zero => simp [host, represents, holds]
      | succ steps => simp [host, represents, holds]
  | @under node next level link rest ih =>
      cases steps with
      | zero => simp at le
      | succ steps =>
          by_cases holds : graph.weightOf node = 0
          · simp only [host, holds, ne_eq, not_true, if_false, link]
            exact ih (Nat.le_of_succ_le_succ le) (forest.hosted node next link)
          · simp [host, represents, holds]

theorem treeOf_eq_some_iff : graph.treeOf node = some next ↔
    graph.represents node = true ∧ graph.parentOf node = some next := by
  unfold treeOf
  rw [Option.ite_none_right_eq_some]

theorem hostOf_eq_some_iff : graph.hostOf node = some next ↔
    graph.represents node = false ∧
      ∃ link, graph.parentOf node = some link ∧
        graph.host graph.size link = next := by
  unfold hostOf
  rw [Option.ite_none_left_eq_some, Option.map_eq_some_iff,
    Bool.not_eq_true]

theorem exists_hostOf_iff : (∃ next, graph.hostOf node = some next) ↔
    graph.represents node = false ∧
      ∃ link, graph.parentOf node = some link := by
  simp [hostOf_eq_some_iff]

theorem Level.treeOf (forest : Forest graph.weightOf graph.parentOf)
    (found : Level graph.parentOf level node)
    (holds : graph.represents node = true) : Level graph.treeOf level node := by
  induction found with
  | root top =>
      apply Level.root
      simp [QuotientGraph.treeOf, top]
  | @under node next level link rest ih =>
      have linked := treeOf_eq_some_iff.mpr ⟨holds, link⟩
      apply Level.under linked
      apply ih
      rw [represents_iff] at holds ⊢
      exact forest.held node next link holds

theorem finalOrder_eq : graph.finalOrder =
    let children := (graph.groupBy graph.treeOf).map graph.largestLast
    let guests := graph.groupBy graph.hostOf
    let nodes := List.range graph.size
    let roots := nodes.filter fun node =>
      graph.represents node && (graph.parentOf node).isNone
    let aside := nodes.filter fun node =>
      ! graph.represents node && (graph.parentOf node).isNone
    (roots.flatMap (postorder children graph.size)).flatMap
      (fun element => guests.getD element [] ++ [element]) ++ aside :=
  rfl

theorem children_groups
    (bounded : ∀ node next, graph.treeOf node = some next →
      next < graph.size) :
    Groups graph.treeOf graph.size
      ((graph.groupBy graph.treeOf).map graph.largestLast) := by
  have grouped := groupBy_groups bounded
  have perm (next : Nat) :
      (((graph.groupBy graph.treeOf).map graph.largestLast).getD next []).Perm
        ((graph.groupBy graph.treeOf).getD next []) := by
    have sorted := @largestLast_perm graph _ (grouped.nodup next)
    rw [Array.getD_eq_getD_getElem?] at sorted ⊢
    rw [Array.getD_eq_getD_getElem?, Array.getElem?_map]
    cases held : (graph.groupBy graph.treeOf)[next]? with
    | none => rfl
    | some nodes => simpa [held] using sorted
  constructor
  · intro node next
    rw [(perm next).mem_iff]
    exact grouped.mem_iff node next
  · intro next
    rw [(perm next).nodup_iff]
    exact grouped.nodup next

section Final

variable (forest : Forest graph.weightOf graph.parentOf)
  (weight_size : graph.weight.size = graph.size)
  (parent_size : graph.parent.size = graph.size)

include forest weight_size parent_size

theorem Forest.next_lt (link : graph.parentOf node = some next) :
    next < graph.size := by
  cases forest.hosted node next link with
  | inl holds => exact lt_of_represents weight_size (represents_iff.mpr holds)
  | inr linked =>
      obtain ⟨higher, link'⟩ := linked
      exact lt_of_parentOf parent_size link'

theorem Forest.exists_level (inside : node < graph.size) :
    ∃ level < graph.size, Level graph.parentOf level node := by
  obtain ⟨level, found⟩ := forest.grounded node
  refine ⟨level, found.lt ?_ inside, found⟩
  intro node next link
  exact forest.next_lt weight_size parent_size link

theorem Forest.elements :
    let children := (graph.groupBy graph.treeOf).map graph.largestLast
    let roots := (List.range graph.size).filter fun node =>
      graph.represents node && (graph.parentOf node).isNone
    (roots.flatMap (postorder children graph.size)).Nodup ∧
      ∀ node, node ∈ roots.flatMap (postorder children graph.size) ↔
        graph.represents node = true := by
  intro children roots
  have links (node next : Nat) (link : graph.treeOf node = some next) :
      graph.represents node = true ∧ next < graph.size ∧
        graph.represents next = true := by
    obtain ⟨holds, link⟩ := treeOf_eq_some_iff.mp link
    refine ⟨holds, forest.next_lt weight_size parent_size link, ?_⟩
    rw [represents_iff] at holds ⊢
    exact forest.held node next link holds
  have grouped : Groups graph.treeOf graph.size children :=
    children_groups fun node next link => (links node next link).2.1
  have mem_roots (node : Nat) : node ∈ roots ↔ node < graph.size ∧
      graph.represents node = true ∧ Level graph.treeOf 0 node := by
    simp only [roots, List.mem_filter, List.mem_range, Bool.and_eq_true,
      Option.isNone_iff_eq_none]
    apply and_congr_right
    intro _
    apply and_congr_right
    intro holds
    have same : graph.treeOf node = graph.parentOf node := if_pos holds
    rw [← same]
    constructor
    · intro top
      exact .root top
    · intro there
      cases there with
      | root top => exact top
  obtain ⟨nodup, mem_iff⟩ := @flatMap_postorder _ graph.size 0 children
    graph.size roots (graph.represents · = true) grouped links
    (List.nodup_range.filter _) mem_roots
  refine ⟨nodup, fun node => ?_⟩
  rw [mem_iff]
  constructor
  · intro ⟨_, holds, _⟩
    exact holds
  · intro holds
    have inside := lt_of_represents weight_size holds
    obtain ⟨level, lt, found⟩ :=
      forest.exists_level weight_size parent_size inside
    refine ⟨inside, holds, level, Nat.le_of_lt lt, ?_⟩
    rw [Nat.zero_add]
    exact found.treeOf forest holds

theorem Forest.hostOf_represents (hosted : graph.hostOf node = some next) :
    graph.represents next = true := by
  obtain ⟨_, link, linked, rfl⟩ := hostOf_eq_some_iff.mp hosted
  have inside := forest.next_lt weight_size parent_size linked
  obtain ⟨level, lt, found⟩ :=
    forest.exists_level weight_size parent_size inside
  exact found.represents_host forest (Nat.le_of_lt lt)
    (forest.hosted node link linked)

theorem Forest.hostOf_groups :
    Groups graph.hostOf graph.size (graph.groupBy graph.hostOf) := by
  apply groupBy_groups
  intro node next hosted
  apply lt_of_represents weight_size
  exact forest.hostOf_represents weight_size parent_size hosted

theorem Forest.mem_guests {elements : List Nat}
    (mem_iff : ∀ node, node ∈ elements ↔ graph.represents node = true)
    (node : Nat) : node ∈ elements.flatMap
      (fun element => (graph.groupBy graph.hostOf).getD element []) ↔
      node < graph.size ∧ graph.represents node = false ∧
        ∃ link, graph.parentOf node = some link := by
  have grouped := forest.hostOf_groups weight_size parent_size
  rw [List.mem_flatMap, ← exists_hostOf_iff]
  constructor
  · intro ⟨next, _, member⟩
    obtain ⟨inside, hosted⟩ := (grouped.mem_iff node next).mp member
    exact ⟨inside, next, hosted⟩
  · intro ⟨inside, next, hosted⟩
    have holds := forest.hostOf_represents weight_size parent_size hosted
    exact ⟨next, (mem_iff next).mpr holds,
      (grouped.mem_iff node next).mpr ⟨inside, hosted⟩⟩

theorem Forest.finalOrder_perm :
    graph.finalOrder.Perm (List.range graph.size) := by
  rw [finalOrder_eq]
  dsimp only
  obtain ⟨nodup, mem_iff⟩ := forest.elements weight_size parent_size
  generalize List.flatMap (postorder _ _) _ = elements at nodup mem_iff ⊢
  have guests := forest.mem_guests weight_size parent_size mem_iff
  have grouped := forest.hostOf_groups weight_size parent_size
  have parts := List.flatMap_append_perm elements
    (fun element => (graph.groupBy graph.hostOf).getD element [])
    (fun element => [element])
  rw [List.flatMap_singleton'] at parts
  apply (parts.symm.append_right _).trans
  apply (List.perm_ext_iff_of_nodup ?_ List.nodup_range).mpr
  · intro node
    simp only [List.mem_append, guests, mem_iff, List.mem_filter,
      List.mem_range, Bool.and_eq_true, Bool.not_eq_true',
      Option.isNone_iff_eq_none]
    constructor
    · intro member
      cases member with
      | inl member =>
          cases member with
          | inl guest => exact guest.1
          | inr element => exact lt_of_represents weight_size element
      | inr aside => exact aside.1
    · intro inside
      cases holds : graph.represents node with
      | true => exact .inl (.inr rfl)
      | false =>
          cases link : graph.parentOf node with
          | none => exact .inr ⟨inside, rfl, rfl⟩
          | some next => exact .inl (.inl ⟨inside, rfl, next, rfl⟩)
  · rw [List.nodup_append, List.nodup_append]
    refine ⟨⟨grouped.nodup_flatMap nodup, nodup, ?_⟩,
      List.nodup_range.filter _, ?_⟩
    · intro node guest node' element same
      subst same
      have hosted := (guests node).mp guest
      simp [(mem_iff node).mp element] at hosted
    · intro node member node' aside same
      subst same
      simp only [List.mem_append, guests, mem_iff] at member
      simp only [List.mem_filter, Bool.and_eq_true, Bool.not_eq_true',
        Option.isNone_iff_eq_none] at aside
      simp [aside] at member

end Final

end QuasiDefinite.QuotientGraph
