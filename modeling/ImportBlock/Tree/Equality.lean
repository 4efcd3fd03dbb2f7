import ImportBlock.Tree.Basic

/-! `Tree.same` is an equivalence of trees. Two groups are the same if they have one stem, and each
child of either has its equal in the other. -/

namespace ImportBlock.Tree

theorem comparison_eq_map (trees others : List Tree) :
    comparison trees others = trees.map fun tree => others.map fun other => tree.same other := by
  induction trees with
  | nil => rfl
  | cons tree rest induction => rw [comparison, induction, List.map_cons]

theorem foldr_comparison (trees others : List Tree) :
    (comparison trees others).foldr (List.zipWith or) (others.map fun _ => false) =
      others.map fun other => trees.any fun tree => tree.same other := by
  induction trees with
  | nil => rfl
  | cons tree rest induction =>
    rw [comparison, List.foldr_cons, induction, List.zipWith_map, List.zipWith_self]
    simp only [List.any_cons]

theorem sameSet_eq_true {left right : List Tree} :
    sameSet left right = true ↔
      (∀ tree ∈ left, ∃ other ∈ right, tree.same other = true) ∧
        ∀ other ∈ right, ∃ tree ∈ left, tree.same other = true := by
  rw [sameSet, fullyMarked, foldr_comparison, comparison_eq_map]
  simp

theorem same_group {stem stem' : Path} {children children' : List Tree} :
    same (.group stem children) (.group stem' children') = true ↔
      stem = stem' ∧
        (∀ child ∈ children, ∃ child' ∈ children', child.same child' = true) ∧
        ∀ child' ∈ children', ∃ child ∈ children, child.same child' = true := by
  rw [same, Bool.and_eq_true, beq_iff_eq, ← sameSet, sameSet_eq_true]

theorem same_refl : ∀ tree : Tree, tree.same tree = true
  | .leaf _ => by simp [same]
  | .group stem children => by
      rw [same_group]
      refine ⟨rfl, ?_, ?_⟩ <;>
        exact fun child member => ⟨child, member, same_refl child⟩

theorem same_symm : ∀ {left right : Tree}, left.same right = true → right.same left = true
  | .leaf _, .leaf _, equal => by simp_all [same]
  | .leaf _, .group _ _, equal => by simp [same] at equal
  | .group _ _, .leaf _, equal => by simp [same] at equal
  | .group stem children, .group stem' children', equal => by
      rw [same_group] at equal ⊢
      refine ⟨equal.1.symm, ?_, ?_⟩
      · intro child' member'
        obtain ⟨child, member, same⟩ := equal.2.2 child' member'
        exact ⟨child, member, same_symm same⟩
      · intro child member
        obtain ⟨child', member', same⟩ := equal.2.1 child member
        exact ⟨child', member', same_symm same⟩

theorem same_trans : ∀ {left middle right : Tree},
    left.same middle = true → middle.same right = true → left.same right = true
  | .leaf _, .leaf _, .leaf _, first, second => by simp_all [same]
  | .group _ _, .leaf _, _, first, _ => by simp [same] at first
  | .leaf _, .group _ _, _, first, _ => by simp [same] at first
  | _, .group _ _, .leaf _, _, second => by simp [same] at second
  | _, .leaf _, .group _ _, _, second => by simp [same] at second
  | .group stem children, .group _ children', .group _ children'', first, second => by
      rw [same_group] at first second ⊢
      refine ⟨first.1.trans second.1, ?_, ?_⟩
      · intro child member
        obtain ⟨child', member', same⟩ := first.2.1 child member
        obtain ⟨child'', member'', same'⟩ := second.2.1 child' member'
        exact ⟨child'', member'', same_trans same same'⟩
      · intro child'' member''
        obtain ⟨child', member', same'⟩ := second.2.2 child'' member''
        obtain ⟨child, member, same⟩ := first.2.2 child' member'
        exact ⟨child, member, same_trans same same'⟩

end ImportBlock.Tree
