import ImportBlock.Proofs.Enumeration

/-! Sort keys separate trees. Where all segments are valid, trees of one sort key are equal as nests of
sets. So the members of a set of trees have different keys, and sorting lists them in one order only,
whatever list of the set it begins with. -/

namespace ImportBlock.Tree

/-! ## Sets as lists -/

/-- Whether no two members of a list are equal as nests of sets. -/
def Differ (trees : List Tree) : Prop := trees.Pairwise fun tree other => ¬tree.same other = true

/-- Whether no group of a tree lists a child twice. -/
inductive IsNest : Tree → Prop
  | leaf (item : Leaf) : IsNest (.leaf item)
  | group (stem : Path) {children : List Tree} (differ : Differ children)
      (nests : ∀ child ∈ children, IsNest child) : IsNest (.group stem children)

/-- Whether a list of trees has each member of a set once, down to the sets inside its members. -/
structure EnumeratesSet (trees : List Tree) : Prop where
  differ : Differ trees
  nests : ∀ tree ∈ trees, tree.IsNest

theorem IsNest.children {stem : Path} {children : List Tree}
    (nest : (Tree.group stem children).IsNest) : EnumeratesSet children := by
  cases nest with
  | group _ differ nests => exact ⟨differ, nests⟩

/-- Trees up to the order and the repetition of children. -/
def setoid : Setoid Tree where
  r left right := left.same right = true
  iseqv := ⟨same_refl, same_symm, same_trans⟩

theorem Differ.nodup {trees : List Tree} (differ : Differ trees) :
    (trees.map (Quotient.mk setoid)).Nodup := by
  rw [List.Nodup, List.pairwise_map]
  exact differ.imp fun different equal => different (Quotient.exact equal)

theorem exists_forall₂_of_sameSet {left right : List Tree} (leftDiffer : Differ left)
    (rightDiffer : Differ right) (equal : sameSet left right = true) :
    ∃ between, List.Forall₂ (fun tree other => tree.same other = true) left between ∧
      between.Perm right := by
  rcases sameSet_eq_true.mp equal with ⟨inRight, inLeft⟩
  have classes : (left.map (Quotient.mk setoid)).Perm (right.map (Quotient.mk setoid)) := by
    rw [List.perm_ext_iff_of_nodup leftDiffer.nodup rightDiffer.nodup]
    intro image
    simp only [List.mem_map]
    constructor
    · rintro ⟨tree, member, rfl⟩
      rcases inRight tree member with ⟨other, member', same⟩
      exact ⟨other, member', Quotient.sound (same_symm same)⟩
    · rintro ⟨other, member, rfl⟩
      rcases inLeft other member with ⟨tree, member', same⟩
      exact ⟨tree, member', Quotient.sound same⟩
  rcases exists_forall₂_of_map_perm classes with ⟨between, each, order⟩
  exact ⟨between, each.imp fun _ _ same => Quotient.exact same, order⟩

theorem rearranges_of_same : ∀ {left right : Tree}, left.IsNest → right.IsNest →
    left.same right = true → left.Rearranges right
  | .leaf item, .leaf item', _, _, equal => by
      rw [same, beq_iff_eq] at equal
      rw [equal]
      exact .leaf item'
  | .leaf _, .group _ _, _, _, equal => by simp [same] at equal
  | .group _ _, .leaf _, _, _, equal => by simp [same] at equal
  | .group stem children, .group stem' children', nest, nest', equal => by
      rw [same_group, ← sameSet_eq_true] at equal
      obtain rfl := equal.1
      rcases exists_forall₂_of_sameSet nest.children.differ nest'.children.differ equal.2 with
        ⟨between, each, order⟩
      refine .group stem (forall₂_imp_of_mem each ?_) order
      intro child member other member' same
      exact rearranges_of_same (nest.children.nests child member)
        (nest'.children.nests other (order.mem_iff.mp member')) same

theorem relists_of_sameSet {left right : List Tree} (leftSet : EnumeratesSet left)
    (rightSet : EnumeratesSet right) (equal : sameSet left right = true) :
    Relists Rearranges left right := by
  rcases exists_forall₂_of_sameSet leftSet.differ rightSet.differ equal with ⟨between, each, order⟩
  refine ⟨between, forall₂_imp_of_mem each ?_, order⟩
  intro tree member other member' same
  exact rearranges_of_same (leftSet.nests tree member)
    (rightSet.nests other (order.mem_iff.mp member')) same

/-! ## Sorting -/

theorem same_of_sortKey {left right : Tree} (leftValid : left.IsValid) (rightValid : right.IsValid)
    (equal : left.sortKey = right.sortKey) : left.same right = true :=
  (rearranges_of_sortKey leftValid rightValid equal).same

theorem pairwise_sorted_lt {trees : List Tree} (valid : ∀ tree ∈ trees, tree.IsValid)
    (differ : Differ trees) :
    (sorted trees).Pairwise fun tree other => tree.sortKey.compare other.sortKey = .lt := by
  have ordered : (sorted trees).Pairwise fun tree other =>
      (tree.sortKey.compare other.sortKey).isLE :=
    pairwise_mergeSort_isLE (compareOn sortKey) trees
  have apart : Differ (sorted trees) :=
    (List.mergeSort_perm trees _).symm.pairwise differ fun different equal =>
      different (same_symm equal)
  refine (ordered.and apart).imp_of_mem ?_
  intro tree other member member' both
  cases order : tree.sortKey.compare other.sortKey with
  | lt => rfl
  | eq =>
      have treeValid := valid tree (List.mem_mergeSort.mp member)
      have otherValid := valid other (List.mem_mergeSort.mp member')
      exact absurd (same_of_sortKey treeValid otherValid (SortKey.eq_of_compare order)) both.2
  | gt =>
      rw [order] at both
      cases both.1

/-- Trees of valid segments with one sort key are equal as nests of sets. So two lists of one set of such
trees are sorted into lists that agree place by place, in each of which the keys increase. -/
theorem sortKey_separates :
    (∀ left right : Tree, left.IsValid → right.IsValid → left.sortKey = right.sortKey →
      left.same right = true) ∧
    ∀ trees others : List Tree, (∀ tree ∈ trees, tree.IsValid) → EnumeratesSet trees →
      EnumeratesSet others → sameSet trees others = true →
        List.Forall₂ (fun tree other => tree.same other = true) (sorted trees) (sorted others) ∧
          (sorted trees).Pairwise fun tree other =>
            tree.sortKey.compare other.sortKey = .lt := by
  refine ⟨fun left right => same_of_sortKey, ?_⟩
  intro trees others valid treesSet othersSet equal
  have relists := relists_of_sameSet treesSet othersSet equal
  refine ⟨?_, pairwise_sorted_lt valid treesSet.differ⟩
  exact (sorted_rearranges valid relists).imp fun _ _ rearranges => rearranges.same

theorem sortKey_separates_two_lists :
    same (.group [.name "a"] [.leaf ⟨[.self], none, {}⟩, .leaf ⟨[.name "b"], some "_", {}⟩])
        (.group [.name "a"] [.leaf ⟨[.name "b"], some "_", {}⟩, .leaf ⟨[.self], none, {}⟩]) = true ∧
      List.Forall₂ (fun tree other => tree.same other = true)
        (sorted [.leaf ⟨[.crate, .glob], none, { visibility := "pub" }⟩,
          .group [.name "a"] [.leaf ⟨[.self], none, {}⟩, .leaf ⟨[.name "b"], some "_", {}⟩]])
        (sorted [.group [.name "a"] [.leaf ⟨[.name "b"], some "_", {}⟩, .leaf ⟨[.self], none, {}⟩],
          .leaf ⟨[.crate, .glob], none, { visibility := "pub" }⟩]) := by
  let group : List Leaf → Tree := fun children => .group [.name "a"] (children.map .leaf)
  let marker : Leaf := ⟨[.self], none, {}⟩
  let renamed : Leaf := ⟨[.name "b"], some "_", {}⟩
  let glob : Tree := .leaf ⟨[.crate, .glob], none, { visibility := "pub" }⟩
  have valid : ∀ children ∈ [[marker, renamed], [renamed, marker]], (group children).IsValid := by
    have paths : ∀ children ∈ [[marker, renamed], [renamed, marker]], ∀ leaf ∈ children,
        leaf.path.IsValid := by decide
    intro children member
    refine .group (by decide) (List.forall_mem_map.mpr ?_)
    exact fun leaf inside => .leaf (paths children member leaf inside)
  have differ : ∀ {left right : Tree}, left.same right = false → Differ [left, right] :=
    fun different => List.pairwise_pair.mpr (by simp [different])
  have nest : ∀ {left right : Leaf}, (Tree.leaf left).same (.leaf right) = false →
      (group [left, right]).IsNest :=
    fun different => .group _ (differ different) (List.forall_mem_map.mpr fun leaf _ => .leaf leaf)
  have first : EnumeratesSet [glob, group [marker, renamed]] := by
    refine ⟨differ (by cbv), List.forall_mem_cons.mpr ⟨.leaf _, ?_⟩⟩
    exact List.forall_mem_singleton.mpr (nest (by cbv))
  have second : EnumeratesSet [group [renamed, marker], glob] := by
    refine ⟨differ (by cbv), List.forall_mem_cons.mpr ⟨nest (by cbv), ?_⟩⟩
    exact List.forall_mem_singleton.mpr (.leaf _)
  have keys : (group [marker, renamed]).sortKey = (group [renamed, marker]).sortKey := by cbv
  have equal : sameSet [glob, group [marker, renamed]] [group [renamed, marker], glob] = true := by
    cbv
  have firstValid := valid [marker, renamed] List.mem_cons_self
  have secondValid := valid [renamed, marker] (List.mem_cons_of_mem _ List.mem_cons_self)
  have listed : ∀ tree ∈ [glob, group [marker, renamed]], tree.IsValid :=
    List.forall_mem_cons.mpr ⟨.leaf (by decide), List.forall_mem_singleton.mpr firstValid⟩
  exact ⟨sortKey_separates.1 _ _ firstValid secondValid keys,
    (sortKey_separates.2 _ _ listed first second equal).1⟩

end ImportBlock.Tree
