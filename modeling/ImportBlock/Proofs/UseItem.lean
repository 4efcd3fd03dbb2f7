import ImportBlock.Section
import ImportBlock.Proofs.Forest
import ImportBlock.Proofs.Tree.Printer

/-! The use items of a merged set. Together they hold its leaves, and each of them is read as an item
that expands to its own leaves. -/

namespace ImportBlock

namespace UseItem

def leaves (item : UseItem) : List Leaf :=
  item.tree.leaves.map fun leaf => { leaf with metadata := item.metadata }

def Holds (item : UseItem) (leaf : Leaf) : Prop :=
  ∃ inner ∈ item.tree.leaves, { inner with metadata := item.metadata } = leaf

theorem mem_leaves {item : UseItem} {leaf : Leaf} : leaf ∈ item.leaves ↔ item.Holds leaf :=
  List.mem_map

/-- Whether an item is written as one that can be read again. -/
structure IsWrittenAs (item : UseItem) (written : WrittenItem) : Prop where
  read : written.IsRead
  text : item.text = written.source
  expands : written.tree.Expands written.metadata
  gives : ∀ leaf, written.tree.Gives written.metadata leaf ↔ item.Holds leaf

theorem text_eq_source {item : UseItem} {written : WrittenItem}
    (metadata : written.metadata = item.metadata)
    (tree : item.tree.source = written.tree.source) : item.text = written.source := by
  rw [text, WrittenItem.source, ← metadata, tree]
  rfl

theorem exists_isWrittenAs {item : UseItem} (regular : item.tree.Regular)
    (legal : ∀ leaf, item.Holds leaf → leaf.Legal) (metadata : item.metadata.IsRead) :
    ∃ written, item.IsWrittenAs written := by
  have written : Tree.Written [] item.tree := by
    intro leaf member
    have given := legal _ ⟨leaf, member, rfl⟩
    exact ⟨given.path, given.rename⟩
  rcases WrittenItem.exists_of_isRead metadata (Tree.isRead_useTree regular written) with
    ⟨result, read, sameMetadata, sameTree⟩
  have expanded := @Tree.exists_leaves_useTree item.metadata _ regular [] written false (.inr rfl)
  rcases expanded with ⟨found, success, leaves⟩
  rw [← sameMetadata, ← sameTree] at success
  refine ⟨result, read, text_eq_source sameMetadata ?_, ⟨found, success⟩, ?_⟩
  · rw [sameTree]
    exact Tree.source_useTree regular written
  · intro leaf
    rw [UseTree.gives_iff success]
    exact leaves leaf

end UseItem

namespace MergedSet

variable {merged : MergedSet} {granularity : Granularity}

theorem mem_items {item : UseItem} :
    item ∈ merged.items granularity ↔
      ∃ group ∈ gather (fun leaf : Leaf => leaf.metadata) merged.leaves,
        item.metadata = group.1 ∧
          item.tree ∈ granularity.trees (group.2.map fun leaf => { leaf with metadata := {} }) := by
  rw [items, UseItem.sorted, (List.mergeSort_perm _ _).mem_iff, List.mem_flatMap]
  apply exists_congr
  intro group
  apply and_congr_right
  intro _
  rw [List.mem_map]
  constructor
  · intro found
    rcases found with ⟨tree, member, rfl⟩
    exact ⟨rfl, member⟩
  · intro found
    exact ⟨item.tree, found.2, by rw [← found.1]⟩

theorem mem_leaves_iff_exists_items (granularity : Granularity) {leaf : Leaf} :
    leaf ∈ merged.leaves ↔ ∃ item ∈ merged.items granularity, item.Holds leaf := by
  constructor
  · intro member
    let members := merged.leaves.filter fun other => other.metadata == leaf.metadata
    have gathered : (leaf.metadata, members) ∈
        gather (fun leaf : Leaf => leaf.metadata) merged.leaves :=
      mem_gather.mpr ⟨⟨leaf, member, rfl⟩, rfl⟩
    have inside : leaf ∈ members := List.mem_filter.mpr ⟨member, by simp⟩
    have plain : { leaf with metadata := {} } ∈
        members.map fun leaf => { leaf with metadata := {} } := List.mem_map_of_mem inside
    have spread := (@Granularity.mem_allLeaves_trees granularity _ _).mpr plain
    rcases Tree.mem_allLeaves.mp spread with ⟨tree, treeInside, lies⟩
    exact ⟨⟨tree, leaf.metadata⟩, mem_items.mpr ⟨_, gathered, rfl, treeInside⟩, _, lies, rfl⟩
  · intro held
    rcases held with ⟨item, member, inner, inside, rfl⟩
    rcases mem_items.mp member with ⟨group, gathered, metadata, tree⟩
    have plain := Granularity.mem_allLeaves_trees.mp (Tree.mem_allLeaves.mpr ⟨_, tree, inside⟩)
    rcases List.mem_map.mp plain with ⟨leaf, lies, rfl⟩
    rcases (of_mem_gather gathered).2 leaf lies with ⟨found, equal⟩
    rw [metadata, ← equal]
    exact found

theorem regular_of_mem_items (paths : ∀ leaf ∈ merged.leaves, leaf.path ≠ []) :
    ∀ item ∈ merged.items granularity, item.tree.Regular := by
  intro item member
  rcases mem_items.mp member with ⟨group, gathered, _, tree⟩
  apply Granularity.regular_of_mem_trees _ _ tree
  intro leaf inside
  rcases List.mem_map.mp inside with ⟨other, lies, rfl⟩
  exact paths other ((of_mem_gather gathered).2 other lies).1

theorem exists_isWrittenAs (legal : ∀ leaf ∈ merged.leaves, leaf.Legal ∧ leaf.metadata.IsRead) :
    ∀ item ∈ merged.items granularity, ∃ written, item.IsWrittenAs written := by
  intro item member
  have held : ∀ leaf, item.Holds leaf → leaf ∈ merged.leaves := by
    intro leaf holds
    exact (mem_leaves_iff_exists_items granularity).mpr ⟨item, member, holds⟩
  have regular := regular_of_mem_items (fun leaf inside => (legal leaf inside).1.path.ne_nil)
    item member
  rcases regular.exists_leaf with ⟨inner, inside, _⟩
  have metadata := (legal _ (held _ ⟨inner, inside, rfl⟩)).2
  exact UseItem.exists_isWrittenAs regular (fun leaf holds => (legal leaf (held leaf holds)).1)
    metadata

end MergedSet

end ImportBlock
