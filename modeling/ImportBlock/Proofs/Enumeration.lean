import ImportBlock.Proofs.Section
import ImportBlock.Proofs.Tree.Rearrangement
import Mathlib

/-! What is written for a merged set does not depend on the orders in which sets are listed: neither
those of the merged set and of the groups inside it, nor those of the trees that are made from it. -/

namespace ImportBlock

/-- Whether a list is another one in some order, with members in place of its own that are alike. -/
def Relists {α : Type} (alike : α → α → Prop) (left right : List α) : Prop :=
  ∃ between, List.Forall₂ alike left between ∧ between.Perm right

section Relists

variable {α κ : Type} {alike : α → α → Prop} {left right : List α}

theorem Relists.map_perm {key : α → κ} (relists : Relists alike left right)
    (kept : ∀ one other, alike one other → key one = key other) :
    (left.map key).Perm (right.map key) := by
  rcases relists with ⟨between, each, order⟩
  rw [forall₂_key_iff.mp (each.imp kept)]
  exact order.map key

theorem Relists.exists_alike (relists : Relists alike left right) {other : α}
    (member : other ∈ right) : ∃ one ∈ left, alike one other := by
  rcases relists with ⟨between, each, order⟩
  exact exists_of_mem_of_forall₂ each.flip (order.mem_iff.mpr member)

end Relists

namespace Tree

theorem isValid_of_leaves {tree : Tree} (regular : tree.Regular)
    (valid : ∀ leaf ∈ tree.leaves, leaf.path.IsValid) : tree.IsValid := by
  induction regular with
  | leaf _ => exact .leaf (valid _ (List.mem_singleton_self _))
  | @group stem children _ nonempty regular induction =>
      have inner : ∀ child ∈ children, ∀ leaf ∈ child.leaves,
          stem.IsValid ∧ leaf.path.IsValid := by
        intro child member leaf lies
        exact List.forall_mem_append.mp
          (valid _ (mem_leaves_group.mpr ⟨child, member, leaf, lies, rfl⟩))
      rcases List.exists_mem_of_ne_nil children nonempty with ⟨child, member⟩
      rcases (regular child member).exists_leaf with ⟨leaf, lies, _⟩
      refine .group (inner child member leaf lies).1 ?_
      intro other inside
      exact induction other inside fun leaf lies => (inner other inside leaf lies).2

theorem allLeaves_perm_of_relists {left right : List Tree}
    (relists : Relists Rearranges left right) : (allLeaves left).Perm (allLeaves right) := by
  rcases relists with ⟨between, each, order⟩
  exact (allLeaves_perm_of_forall₂ (each.imp fun _ _ rearranges => rearranges.leaves_perm)).trans
    (allLeaves_perm order)

theorem sorted_rearranges {left right : List Tree} (valid : ∀ tree ∈ left, tree.IsValid)
    (relists : Relists Rearranges left right) :
    List.Forall₂ Rearranges (sorted left) (sorted right) := by
  have keys : List.Forall₂ (fun tree other => tree.sortKey = other.sortKey) (sorted left)
      (sorted right) :=
    forall₂_mergeSort_of_perm compare (relists.map_perm fun _ _ rearranges => rearranges.sortKey_eq)
  refine forall₂_imp_of_mem keys ?_
  intro tree inLeft other inRight equal
  rcases relists.exists_alike (List.mem_mergeSort.mp inRight) with ⟨one, member, rearranges⟩
  exact rearranges_of_sortKey (valid tree (List.mem_mergeSort.mp inLeft))
    (rearranges.isValid (valid one member)) equal

end Tree

namespace UseItem

/-- Whether two items have the same metadata, and trees that differ in the orders of children only. -/
structure Rearranges (left right : UseItem) : Prop where
  tree : left.tree.Rearranges right.tree
  metadata : left.metadata = right.metadata

theorem Rearranges.text_eq {left right : UseItem} (rearranges : left.Rearranges right)
    (valid : left.tree.IsValid) : left.text = right.text := by
  rw [text, text, rearranges.metadata, rearranges.tree.source_eq valid]

def sortKey (item : UseItem) : SortKey × Metadata := (item.tree.sortKey, item.metadata)

def keyOrder : SortKey × Metadata → SortKey × Metadata → Ordering :=
  compareLex (compareOn Prod.fst) (compareOn Prod.snd)

instance : Std.TransCmp keyOrder := inferInstanceAs (Std.TransCmp (compareLex _ _))

instance : Std.LawfulEqCmp keyOrder where
  eq_of_compare {left right} equal := by
    have ⟨trees, metadatas⟩ := Ordering.then_eq_eq.mp equal
    exact Prod.ext (Std.LawfulEqOrd.eq_of_compare trees) (Std.LawfulEqOrd.eq_of_compare metadatas)

instance : Std.TransCmp order :=
  inferInstanceAs <| Std.TransCmp <|
    compareLex (compareOn fun item : UseItem => item.tree.sortKey) (compareOn (·.metadata))

theorem sorted_sorted (items : List UseItem) : sorted (sorted items) = sorted items :=
  List.mergeSort_of_pairwise (pairwise_mergeSort_isLE order items)

theorem sorted_rearranges {left right : List UseItem} (valid : ∀ item ∈ left, item.tree.IsValid)
    (relists : Relists Rearranges left right) :
    List.Forall₂ Rearranges (sorted left) (sorted right) := by
  have keys : List.Forall₂ (fun item other => item.sortKey = other.sortKey) (sorted left)
      (sorted right) := by
    refine forall₂_mergeSort_of_perm keyOrder (relists.map_perm ?_)
    intro item other rearranges
    exact Prod.ext rearranges.tree.sortKey_eq rearranges.metadata
  refine forall₂_imp_of_mem keys ?_
  intro item inLeft other inRight equal
  rcases relists.exists_alike (List.mem_mergeSort.mp inRight) with ⟨one, member, rearranges⟩
  have parts := Prod.ext_iff.mp equal
  exact ⟨Tree.rearranges_of_sortKey (valid item (List.mem_mergeSort.mp inLeft))
    (rearranges.tree.isValid (valid one member)) parts.1, parts.2⟩

end UseItem

theorem Sections.ofItems_congr {config : Config} {left right : List UseItem}
    (each : List.Forall₂ (fun item other : UseItem =>
      item.tree.root? = other.tree.root? ∧ item.text = other.text) left right) :
    ofItems config left = ofItems config right := by
  have texts : ∀ name : Section,
      (left.filter fun item =>
          Section.ofTree config.coreNames config.ownNames item.tree = name).map (·.text) =
        (right.filter fun item =>
          Section.ofTree config.coreNames config.ownNames item.tree = name).map (·.text) := by
    intro name
    induction each with
    | nil => rfl
    | @cons item other _ _ alike _ induction =>
        have same : Section.ofTree config.coreNames config.ownNames item.tree =
            Section.ofTree config.coreNames config.ownNames other.tree := by
          rw [Section.ofTree, alike.1, Section.ofTree]
        by_cases here : Section.ofTree config.coreNames config.ownNames other.tree = name
        · simp [same, here, alike.2, induction]
        · simp [same, here, induction]
  simp only [ofItems, texts]

namespace MergedSet

variable {left right merged : MergedSet}

theorem sorted_items (granularity : Granularity) :
    UseItem.sorted (merged.items granularity) = merged.items granularity :=
  UseItem.sorted_sorted _

theorem leaves_eq_of_relists (valid : ∀ root ∈ left.roots, root.IsValid)
    (relists : Relists Tree.Rearranges left.roots right.roots) : left.leaves = right.leaves := by
  apply Leaf.sorted_eq_of_perm _ (Tree.allLeaves_perm_of_relists relists)
  intro leaf member
  rcases Tree.mem_allLeaves.mp member with ⟨root, inside, lies⟩
  exact (valid root inside).path leaf lies

theorem isValid_of_mem_items {granularity : Granularity}
    (valid : ∀ leaf ∈ merged.leaves, leaf.path ≠ [] ∧ leaf.path.IsValid) :
    ∀ item ∈ merged.items granularity, item.tree.IsValid := by
  intro item member
  have regular := regular_of_mem_items (fun leaf inside => (valid leaf inside).1) item member
  apply Tree.isValid_of_leaves regular
  intro leaf lies
  exact (valid _ ((mem_leaves_iff_exists_items granularity).mpr ⟨item, member, leaf, lies, rfl⟩)).2

/-- Merged sets that list the same trees in whatever orders give the same trees in the same order, the
same leaves, and the same block. This is also what items give whose trees list the same children in
whatever orders. -/
theorem output_eq_of_relists (valid : ∀ root ∈ left.roots, root.IsValid)
    (paths : ∀ leaf ∈ left.leaves, leaf.path ≠ [])
    (relists : Relists Tree.Rearranges left.roots right.roots) (config : Config) :
    List.Forall₂ (fun tree other => tree.same other = true) left.sorted right.sorted ∧
    left.leaves = right.leaves ∧
    left.items config.granularity = right.items config.granularity ∧
    left.sections config = right.sections config ∧
    ∀ items, Relists UseItem.Rearranges (left.items config.granularity) items →
      List.Forall₂ (fun item other : UseItem =>
          item.tree.same other.tree = true ∧ item.metadata = other.metadata)
        (left.items config.granularity) (UseItem.sorted items) ∧
      Sections.ofItems config (UseItem.sorted items) = left.sections config := by
  have same := leaves_eq_of_relists valid relists
  have sameItems : left.items config.granularity = right.items config.granularity := by
    rw [items, items, same]
  have trees := Tree.sorted_rearranges valid relists
  refine ⟨trees.imp fun _ _ => Tree.Rearranges.same, same, sameItems, ?_, ?_⟩
  · rw [sections, sections, sameItems]
  · intro items relisted
    have legal : ∀ leaf ∈ left.leaves, leaf.path ≠ [] ∧ leaf.path.IsValid := by
      intro leaf member
      rcases Tree.mem_allLeaves.mp (List.mem_mergeSort.mp member) with ⟨root, inside, lies⟩
      exact ⟨paths leaf member, (valid root inside).path leaf lies⟩
    have valid' := @isValid_of_mem_items left config.granularity legal
    have each := UseItem.sorted_rearranges valid' relisted
    rw [sorted_items] at each
    refine ⟨each.imp fun _ _ rearranges => ⟨rearranges.tree.same, rearranges.metadata⟩, ?_⟩
    rw [sections]
    refine (Sections.ofItems_congr (forall₂_imp_of_mem each ?_)).symm
    intro item member other _ rearranges
    exact ⟨rearranges.tree.root?_eq, rearranges.text_eq (valid' item member)⟩

theorem output_eq_of_relists_group :
    (sections ⟨[.leaf ⟨[.name "d"], none, {}⟩, .group [.name "a"]
        [.leaf ⟨[.name "c"], none, {}⟩, .leaf ⟨[.name "b"], none, {}⟩]]⟩ .default).text =
      "use a::{b, c};\nuse d;" := by
  let children : List Tree := [.leaf ⟨[.name "b"], none, {}⟩, .leaf ⟨[.name "c"], none, {}⟩]
  let left : MergedSet := ⟨[.group [.name "a"] children, .leaf ⟨[.name "d"], none, {}⟩]⟩
  have names : ∀ text ∈ ["a", "b", "c", "d"], Path.IsValid [.name text] := by decide
  have valid : ∀ root ∈ left.roots, root.IsValid := by
    simp only [left, children, List.forall_mem_cons, List.not_mem_nil, false_implies,
      implies_true, and_true]
    refine ⟨.group (names "a" (by simp)) ?_, .leaf (names "d" (by simp))⟩
    simp only [List.forall_mem_cons, List.not_mem_nil, false_implies, implies_true, and_true]
    exact ⟨.leaf (names "b" (by simp)), .leaf (names "c" (by simp))⟩
  have leaves : left.leaves = [⟨[.name "a", .name "b"], none, {}⟩,
      ⟨[.name "a", .name "c"], none, {}⟩, ⟨[.name "d"], none, {}⟩] := by cbv
  have swapped : Tree.Rearranges (.group [.name "a"] children)
      (.group [.name "a"] [.leaf ⟨[.name "c"], none, {}⟩, .leaf ⟨[.name "b"], none, {}⟩]) :=
    .group _ (.cons (.leaf _) (.cons (.leaf _) .nil)) (.swap _ _ [])
  have unordered := output_eq_of_relists valid (by rw [leaves]; decide)
    ⟨_, .cons swapped (.cons (.leaf _) .nil), .swap _ _ []⟩ .default
  rw [← unordered.2.2.2.1]
  cbv

end MergedSet

end ImportBlock
