import ImportBlock.Proofs.Merge.Again
import ImportBlock.Proofs.UseItem
import Mathlib

/-! The use items of a merged set divide its leaves among them. Which leaves stand in one item is
decided by their paths and metadata, two leaves at a time. -/

namespace ImportBlock

theorem Leaf.eq_of_metadata {left right : Leaf} (metadata : left.metadata = right.metadata)
    (equal : ({ left with metadata := {} } : Leaf) = { right with metadata := {} }) :
    left = right := by
  rcases left with ⟨path, rename, _⟩
  rcases right with ⟨path', rename', _⟩
  simp_all

namespace Granularity

variable {granularity : Granularity} {leaves : List Leaf}

/-! ## No leaf is lost or repeated -/

theorem distinct_map_leaf (nodup : leaves.Nodup) :
    Tree.distinct (leaves.map .leaf) = leaves.map .leaf := by
  induction leaves with
  | nil => rfl
  | cons leaf rest induction =>
      have parts := List.nodup_cons.mp nodup
      rw [List.map_cons, Tree.distinct, induction parts.2, List.filter_eq_self.mpr]
      intro tree member
      rcases List.mem_map.mp member with ⟨other, inside, rfl⟩
      have different : leaf ≠ other := fun equal => parts.1 (equal ▸ inside)
      simpa [Tree.same] using different

theorem allLeaves_moduleTrees {parent : Path} {members : List Leaf} (nodup : members.Nodup)
    (within : ∀ leaf ∈ members, leaf.path.dropLast = parent) :
    Tree.allLeaves (moduleTrees parent members) = members := by
  unfold moduleTrees
  split
  · exact Tree.allLeaves_map_leaf members
  · let children := members.map fun leaf => { leaf with path := leaf.path.drop parent.length }
    have restored : children.map (Leaf.under parent) = members :=
      map_map_eq_self fun leaf member => under_drop_of_dropLast (within leaf member)
    have different : children.Nodup := List.Nodup.of_map (Leaf.under parent) (restored ▸ nodup)
    change Tree.allLeaves [.group parent (Tree.distinct (children.map .leaf))] = members
    rw [distinct_map_leaf different, Tree.allLeaves, Tree.leaves, Tree.allLeaves_map_leaf, restored,
      Tree.allLeaves, List.append_nil]

theorem allLeaves_trees_perm (granularity : Granularity) (nodup : leaves.Nodup) :
    (Tree.allLeaves (granularity.trees leaves)).Perm leaves := by
  cases granularity with
  | crate =>
      have perm := Tree.allLeaves_factor_perm leaves
      rwa [eraseDups_eq_self nodup] at perm
  | item => rw [trees, Tree.allLeaves_map_leaf]
  | module =>
      rw [trees, Tree.allLeaves_eq_flatMap, List.flatMap_assoc]
      refine (List.Perm.flatMap_left _ ?_).trans
        (flatMap_gather_perm (fun leaf : Leaf => leaf.path.dropLast) leaves)
      intro group gathered
      have members := (mem_gather.mp gathered).2
      have within := (of_mem_gather gathered).2
      rw [← Tree.allLeaves_eq_flatMap, allLeaves_moduleTrees]
      · exact members ▸ nodup.filter _
      · exact fun leaf member => (within leaf member).2

/-! ## Which leaves stand in one tree -/

/-- Whether different imports of these paths, alike in metadata, stand in one item. -/
def Shares : Granularity → Path → Path → Prop
  | .crate, left, right => left.head? = right.head? ∧ 2 ≤ left.length ∧ 2 ≤ right.length
  | .module, left, right => left.dropLast = right.dropLast ∧ left.dropLast ≠ []
  | .item, _, _ => False

theorem Shares.symm {left right : Path} (shares : granularity.Shares left right) :
    granularity.Shares right left := by
  cases granularity with
  | crate => exact ⟨shares.1.symm, shares.2.2, shares.2.1⟩
  | module => exact ⟨shares.1.symm, shares.1 ▸ shares.2⟩
  | item => exact shares

theorem Shares.trans {left middle right : Path} (first : granularity.Shares left middle)
    (second : granularity.Shares middle right) : granularity.Shares left right := by
  cases granularity with
  | crate => exact ⟨first.1.trans second.1, first.2.1, second.2.2⟩
  | module => exact ⟨first.1.trans second.1, first.2⟩
  | item => exact first

/-- Whether a tree holds one of the leaves and all those that share an item with it. -/
def IsShare (granularity : Granularity) (leaves : List Leaf) (tree : Tree) : Prop :=
  ∃ leaf ∈ leaves, ∀ other, other ∈ tree.leaves ↔
    other = leaf ∨ other ∈ leaves ∧ granularity.Shares leaf.path other.path

theorem isShare_leaf {leaf : Leaf} (member : leaf ∈ leaves)
    (alone : ∀ other ∈ leaves, granularity.Shares leaf.path other.path → other = leaf) :
    granularity.IsShare leaves (.leaf leaf) := by
  refine ⟨leaf, member, ?_⟩
  intro other
  rw [Tree.leaves, List.mem_singleton]
  constructor
  · exact .inl
  · intro found
    rcases found with equal | ⟨inside, shares⟩
    · exact equal
    · exact alone other inside shares

theorem isShare_of_mem_iff {tree : Tree} {leaf : Leaf} (member : leaf ∈ tree.leaves)
    (inside : leaf ∈ leaves) (holds : ∀ other, other ∈ tree.leaves ↔
      other ∈ leaves ∧ granularity.Shares leaf.path other.path) :
    granularity.IsShare leaves tree := by
  refine ⟨leaf, inside, ?_⟩
  intro other
  rw [← holds]
  constructor
  · exact .inr
  · intro found
    rcases found with rfl | found
    · exact member
    · exact found

theorem isShare_leaf_of_short {leaf : Leaf} (member : leaf ∈ leaves)
    (short : leaf.path.length ≤ 1) : crate.IsShare leaves (.leaf leaf) := by
  apply isShare_leaf member
  intro other _ shares
  have long := shares.2.1
  omega

theorem isShare_bucket {depth : Nat} {head : Path} {members : List Leaf}
    (gathered : (head, members) ∈ gather (fun leaf : Leaf => leaf.path.take 1)
      (leaves.filter fun leaf => 1 < leaf.path.length)) :
    crate.IsShare leaves (Tree.bucket depth head members) := by
  rcases of_mem_gather gathered with ⟨nonempty, within⟩
  have perm := Tree.leaves_bucket_perm (Tree.allLeaves_factorTo_perm depth)
    fun leaf member => (within leaf member).2
  rcases List.exists_mem_of_ne_nil members nonempty with ⟨leaf, inside⟩
  have found := within leaf inside
  have long := List.mem_filter.mp found.1
  apply isShare_of_mem_iff (perm.mem_iff.mpr inside) long.1
  intro other
  have starts : leaf.path.head? = other.path.head? ↔ other.path.take 1 = head := by
    rw [← found.2]
    cases leaf.path <;> cases other.path <;> simp [eq_comm]
  rw [perm.mem_iff, (mem_gather.mp gathered).2, Shares, starts]
  have long := of_decide_eq_true long.2
  simp only [List.mem_filter, decide_eq_true_eq, beq_iff_eq]
  constructor
  · intro held
    exact ⟨held.1.1, held.2, long, held.1.2⟩
  · intro held
    exact ⟨⟨held.1, held.2.2.2⟩, held.2.1⟩

theorem isShare_of_mem_factorTo {depth : Nat} (deep : ∀ leaf ∈ leaves, leaf.path.length ≤ depth) :
    ∀ tree ∈ Tree.factorTo depth leaves, crate.IsShare leaves tree := by
  intro tree member
  cases depth with
  | zero =>
      rcases List.mem_map.mp member with ⟨leaf, inside, rfl⟩
      exact isShare_leaf_of_short inside (Nat.le_succ_of_le (deep leaf inside))
  | succ depth =>
      rw [Tree.factorTo_succ, List.mem_append] at member
      rcases member with short | long
      · rcases List.mem_map.mp short with ⟨leaf, inside, rfl⟩
        have short := List.mem_filter.mp inside
        exact isShare_leaf_of_short short.1 (of_decide_eq_true short.2)
      · rcases List.mem_map.mp long with ⟨group, gathered, rfl⟩
        exact isShare_bucket gathered

theorem isShare_of_mem_moduleTrees {parent : Path} {members : List Leaf}
    (gathered : (parent, members) ∈ gather (fun leaf : Leaf => leaf.path.dropLast) leaves) :
    ∀ tree ∈ moduleTrees parent members, module.IsShare leaves tree := by
  intro tree member
  rcases of_mem_gather gathered with ⟨nonempty, within⟩
  have shared : ∀ leaf ∈ members, ∀ other,
      other ∈ members ↔ other ∈ leaves ∧ leaf.path.dropLast = other.path.dropLast := by
    intro leaf inside other
    rw [(within leaf inside).2, (mem_gather.mp gathered).2, List.mem_filter, beq_iff_eq, eq_comm]
  have held := @mem_allLeaves_moduleTrees parent members fun leaf inside => (within leaf inside).2
  unfold moduleTrees at member held
  split at member
  · next alone =>
      rcases List.mem_map.mp member with ⟨leaf, inside, rfl⟩
      apply isShare_leaf (within leaf inside).1
      intro other inLeaves shares
      have single : members.length = 1 := by
        simpa [← (within leaf inside).2, shares.2] using alone
      rcases List.length_eq_one_iff.mp single with ⟨only, rfl⟩
      have other := (shared leaf inside other).mpr ⟨inLeaves, shares.1⟩
      rw [List.mem_singleton.mp other, List.mem_singleton.mp inside]
  · next several =>
      rw [if_neg several] at held
      rw [List.mem_singleton.mp member]
      simp only [Tree.allLeaves, List.append_nil] at held
      rcases List.exists_mem_of_ne_nil members nonempty with ⟨leaf, inside⟩
      apply isShare_of_mem_iff (held.mpr inside) (within leaf inside).1
      intro other
      have below : leaf.path.dropLast ≠ [] := by
        rw [(within leaf inside).2]
        intro top
        simp [top] at several
      rw [held, shared leaf inside, Shares]
      simp [below]

theorem isShare_of_mem_trees : ∀ tree ∈ granularity.trees leaves,
    granularity.IsShare leaves tree := by
  cases granularity with
  | crate =>
      intro tree member
      rcases isShare_of_mem_factorTo (fun _ inside => Tree.length_le_depth inside) tree member with
        ⟨leaf, inside, holds⟩
      simp only [List.mem_eraseDups] at inside holds
      exact ⟨leaf, inside, holds⟩
  | item =>
      intro tree member
      rcases List.mem_map.mp member with ⟨leaf, inside, rfl⟩
      exact isShare_leaf inside fun _ _ shares => shares.elim
  | module =>
      intro tree member
      rcases List.mem_flatMap.mp member with ⟨group, gathered, inside⟩
      exact isShare_of_mem_moduleTrees gathered tree inside

theorem exists_mem_trees_iff {left right : Leaf} (inLeft : left ∈ leaves) (inRight : right ∈ leaves)
    (different : left ≠ right) :
    (∃ tree ∈ granularity.trees leaves, left ∈ tree.leaves ∧ right ∈ tree.leaves) ↔
      granularity.Shares left.path right.path := by
  constructor
  · intro together
    rcases together with ⟨tree, member, holdsLeft, holdsRight⟩
    rcases isShare_of_mem_trees tree member with ⟨leaf, _, holds⟩
    rcases (holds left).mp holdsLeft with rfl | ⟨_, sharesLeft⟩
    · rcases (holds right).mp holdsRight with equal | ⟨_, shares⟩
      · exact absurd equal.symm different
      · exact shares
    · rcases (holds right).mp holdsRight with rfl | ⟨_, sharesRight⟩
      · exact sharesLeft.symm
      · exact sharesLeft.symm.trans sharesRight
  · intro shares
    rcases Tree.mem_allLeaves.mp (mem_allLeaves_trees.mpr inLeft) with ⟨tree, member, lies⟩
    refine ⟨tree, member, lies, ?_⟩
    rcases isShare_of_mem_trees tree member with ⟨leaf, _, holds⟩
    refine (holds right).mpr (.inr ⟨inRight, ?_⟩)
    rcases (holds left).mp lies with rfl | ⟨_, sharesLeft⟩
    · exact shares
    · exact sharesLeft.trans shares

end Granularity

namespace MergedSet

variable {merged : MergedSet} {granularity : Granularity}

theorem flatMap_leaves_items_perm (nodup : merged.leaves.Nodup) :
    ((merged.items granularity).flatMap UseItem.leaves).Perm merged.leaves := by
  refine ((List.mergeSort_perm _ _).flatMap_right _).trans ?_
  rw [List.flatMap_assoc]
  refine (List.Perm.flatMap_left _ ?_).trans
    (flatMap_gather_perm (fun leaf : Leaf => leaf.metadata) merged.leaves)
  intro group gathered
  rcases group with ⟨metadata, members⟩
  have within := (of_mem_gather gathered).2
  let plain := members.map fun leaf => { leaf with metadata := {} }
  have restored : (plain.map fun leaf => { leaf with metadata }) = members := by
    apply map_map_eq_self
    intro leaf member
    rw [← (within leaf member).2]
  have different : members.Nodup := (mem_gather.mp gathered).2 ▸ nodup.filter _
  have spread := granularity.allLeaves_trees_perm (List.Nodup.of_map _ (restored ▸ different))
  rw [List.flatMap_map]
  change ((granularity.trees plain).flatMap fun tree =>
    tree.leaves.map fun leaf => { leaf with metadata }).Perm members
  rw [← List.map_flatMap, ← Tree.allLeaves_eq_flatMap, ← restored]
  exact spread.map _

theorem exists_mem_items_iff {left right : Leaf} (inLeft : left ∈ merged.leaves)
    (inRight : right ∈ merged.leaves) (different : left ≠ right) :
    (∃ item ∈ merged.items granularity, left ∈ item.leaves ∧ right ∈ item.leaves) ↔
      left.metadata = right.metadata ∧ granularity.Shares left.path right.path := by
  constructor
  · intro together
    rcases together with ⟨item, member, holdsLeft, holdsRight⟩
    rcases mem_items.mp member with ⟨group, _, _, tree⟩
    rcases UseItem.mem_leaves.mp holdsLeft with ⟨inner, inTree, rfl⟩
    rcases UseItem.mem_leaves.mp holdsRight with ⟨inner', inTree', rfl⟩
    have plain : ∀ {leaf : Leaf}, leaf ∈ item.tree.leaves →
        leaf ∈ group.2.map fun leaf => { leaf with metadata := {} } :=
      fun lies => Granularity.mem_allLeaves_trees.mp (Tree.mem_allLeaves.mpr ⟨_, tree, lies⟩)
    refine ⟨rfl, (Granularity.exists_mem_trees_iff (plain inTree) (plain inTree') ?_).mp
      ⟨item.tree, tree, inTree, inTree'⟩⟩
    intro equal
    exact different (equal ▸ rfl)
  · intro alike
    rcases alike with ⟨metadata, shares⟩
    let members := merged.leaves.filter fun other => other.metadata == left.metadata
    have gathered : (left.metadata, members) ∈
        gather (fun leaf : Leaf => leaf.metadata) merged.leaves :=
      mem_gather.mpr ⟨⟨left, inLeft, rfl⟩, rfl⟩
    have plain : ∀ leaf ∈ merged.leaves, leaf.metadata = left.metadata →
        { leaf with metadata := {} } ∈ members.map fun leaf => { leaf with metadata := {} } := by
      intro leaf inside equal
      exact List.mem_map_of_mem (List.mem_filter.mpr ⟨inside, by simp [equal]⟩)
    have stripped : ({ left with metadata := {} } : Leaf) ≠ { right with metadata := {} } := by
      intro equal
      exact different (Leaf.eq_of_metadata metadata equal)
    rcases (Granularity.exists_mem_trees_iff (plain left inLeft rfl)
      (plain right inRight metadata.symm) stripped).mpr shares with ⟨tree, member, lies, lies'⟩
    refine ⟨⟨tree, left.metadata⟩, mem_items.mpr ⟨_, gathered, rfl, member⟩, ?_, ?_⟩
    · exact UseItem.mem_leaves.mpr ⟨_, lies, rfl⟩
    · exact UseItem.mem_leaves.mpr ⟨_, lies', by rw [metadata]⟩

/-- The items of a merged set hold each of its leaves once and no others. Different leaves stand in one
item if they are alike in metadata and the granularity puts their paths together. -/
theorem items_partition {forests : List Forest} {absorbByRename : Bool}
    (success : merge forests absorbByRename = .ok merged) (granularity : Granularity) :
    merged.leaves.Nodup ∧
    ((merged.items granularity).flatMap UseItem.leaves).Perm merged.leaves ∧
    ∀ left ∈ merged.leaves, ∀ right ∈ merged.leaves, left ≠ right →
      ((∃ item ∈ merged.items granularity, left ∈ item.leaves ∧ right ∈ item.leaves) ↔
        left.metadata = right.metadata ∧ granularity.Shares left.path right.path) := by
  have nodup := nodup_leaves success
  refine ⟨nodup, flatMap_leaves_items_perm nodup, ?_⟩
  intro left inLeft right inRight different
  exact exists_mem_items_iff inLeft inRight different

theorem items_partition_siblings :
    ∃ merged, merge [⟨0, [.leaf ⟨[.name "a", .name "b"], none, {}⟩]⟩,
        ⟨1, [.leaf ⟨[.name "a", .name "c"], none, {}⟩]⟩] true = .ok merged ∧
      ∃ item ∈ merged.items .module, ⟨[.name "a", .name "b"], none, {}⟩ ∈ item.leaves ∧
        ⟨[.name "a", .name "c"], none, {}⟩ ∈ item.leaves := by
  let merged : MergedSet := ⟨[.group [.name "a"]
    [.leaf ⟨[.name "b"], none, {}⟩, .leaf ⟨[.name "c"], none, {}⟩]]⟩
  have success : merge [⟨0, [.leaf ⟨[.name "a", .name "b"], none, {}⟩]⟩,
      ⟨1, [.leaf ⟨[.name "a", .name "c"], none, {}⟩]⟩] true = .ok merged := by cbv
  have leaves : merged.leaves =
      [⟨[.name "a", .name "b"], none, {}⟩, ⟨[.name "a", .name "c"], none, {}⟩] := by cbv
  have divided := (items_partition success .module).2.2
  rw [leaves] at divided
  exact ⟨merged, success, (divided _ List.mem_cons_self _ (List.mem_cons_of_mem _
    List.mem_cons_self) (by decide)).mpr ⟨rfl, rfl, by decide⟩⟩

end MergedSet

end ImportBlock
