import ImportBlock.Granularity
import ImportBlock.Proofs.Tree.Factor

/-! The trees that leaves are written as: whatever the granularity, they hold these leaves and no
others, and nothing in them is empty. -/

namespace ImportBlock

namespace Tree

theorem mem_allLeaves {trees : List Tree} {leaf : Leaf} :
    leaf ∈ allLeaves trees ↔ ∃ tree ∈ trees, leaf ∈ tree.leaves := by
  rw [allLeaves_eq_flatMap, List.mem_flatMap]

/-- Whether no path, no stem and no group of a tree is empty. -/
inductive Regular : Tree → Prop
  | leaf {item : Leaf} (path : item.path ≠ []) : Regular (.leaf item)
  | group {stem : Path} {children : List Tree} (stemNonempty : stem ≠ [])
      (nonempty : children ≠ []) (regular : ∀ child ∈ children, Regular child) :
      Regular (.group stem children)

theorem regular_underStem {stem : Path} (stemNonempty : stem ≠ []) {children : List Tree}
    (nonempty : children ≠ []) (regular : ∀ child ∈ children, Regular child) :
    (underStem stem children).Regular := by
  unfold underStem
  split
  · apply Regular.leaf
    simp [Leaf.under, stemNonempty]
  · next inner grandchildren =>
      cases regular (.group inner grandchildren) List.mem_cons_self with
      | group _ some inside => exact .group (by simp [stemNonempty]) some inside
  · exact .group stemNonempty nonempty regular

theorem factorTo_ne_nil (depth : Nat) {leaves : List Leaf} (nonempty : leaves ≠ []) :
    factorTo depth leaves ≠ [] := by
  intro empty
  have perm := allLeaves_factorTo_perm depth leaves
  rw [empty] at perm
  exact nonempty (List.Perm.nil_eq perm).symm

theorem regular_of_mem_factorTo {depth : Nat} {leaves : List Leaf}
    (paths : ∀ leaf ∈ leaves, leaf.path ≠ []) :
    ∀ tree ∈ factorTo depth leaves, tree.Regular := by
  induction depth generalizing leaves with
  | zero =>
      intro tree member
      rcases List.mem_map.mp member with ⟨leaf, inside, rfl⟩
      exact .leaf (paths leaf inside)
  | succ depth induction =>
      intro tree member
      rw [factorTo] at member
      rcases List.mem_append.mp member with short | long
      · rcases List.mem_map.mp short with ⟨leaf, inside, rfl⟩
        exact .leaf (paths leaf (List.mem_filter.mp inside).1)
      · rcases List.mem_map.mp long with ⟨⟨head, members⟩, gathered, rfl⟩
        rcases of_mem_gather gathered with ⟨nonempty, within⟩
        have goesOn : ∀ leaf ∈ members, 1 < leaf.path.length := by
          intro leaf inside
          simpa using (List.mem_filter.mp (within leaf inside).1).2
        dsimp only
        split
        · next only =>
            have long := goesOn only List.mem_cons_self
            exact .leaf (List.ne_nil_of_length_pos (by omega))
        · rcases List.exists_mem_of_ne_nil members nonempty with ⟨leaf, inside⟩
          have long := goesOn leaf inside
          have headNonempty : head ≠ [] := by
            rw [← (within leaf inside).2]
            exact List.ne_nil_of_length_pos (by rw [List.length_take]; omega)
          have tailsNonempty : tails members ≠ [] := by simpa [tails] using nonempty
          apply regular_underStem headNonempty (factorTo_ne_nil depth tailsNonempty)
          apply induction
          intro tail tailInside
          rcases List.mem_map.mp tailInside with ⟨other, otherInside, rfl⟩
          have long := goesOn other otherInside
          exact List.ne_nil_of_length_pos (by rw [List.length_tail]; omega)

theorem mem_distinct_map_leaf {leaves : List Leaf} {tree : Tree} :
    tree ∈ distinct (leaves.map .leaf) ↔ tree ∈ leaves.map Tree.leaf := by
  induction leaves with
  | nil => rfl
  | cons leaf rest induction =>
      rw [List.map_cons, distinct, List.mem_cons, List.mem_cons, List.mem_filter, induction]
      constructor
      · intro found
        exact found.imp_right And.left
      · intro found
        rcases found with rfl | inside
        · exact .inl rfl
        · rcases List.mem_map.mp inside with ⟨other, _, rfl⟩
          by_cases equal : leaf = other
          · exact .inl (by rw [equal])
          · exact .inr ⟨inside, by simpa [same] using equal⟩

end Tree

namespace Granularity

variable {parent : Path} {members : List Leaf}

theorem drop_of_dropLast {path : Path} (equal : path.dropLast = parent) :
    parent ++ path.drop parent.length = path ∧ (path ≠ [] → path.drop parent.length ≠ []) := by
  rcases List.eq_nil_or_concat path with rfl | ⟨front, last, rfl⟩
  · rw [← equal]
    exact ⟨rfl, fun nonempty => absurd rfl nonempty⟩
  · rw [List.concat_eq_append, List.dropLast_concat] at equal
    rw [List.concat_eq_append, equal, List.drop_left]
    exact ⟨rfl, fun _ => List.cons_ne_nil _ _⟩

theorem under_drop_of_dropLast {leaf : Leaf} (within : leaf.path.dropLast = parent) :
    Leaf.under parent { leaf with path := leaf.path.drop parent.length } = leaf := by
  rw [Leaf.under, (drop_of_dropLast within).1]

theorem mem_allLeaves_moduleTrees (within : ∀ leaf ∈ members, leaf.path.dropLast = parent)
    {leaf : Leaf} :
    leaf ∈ Tree.allLeaves (moduleTrees parent members) ↔ leaf ∈ members := by
  unfold moduleTrees
  split
  · rw [Tree.allLeaves_map_leaf]
  · have restored : ∀ leaf ∈ members,
        Leaf.under parent { leaf with path := leaf.path.drop parent.length } = leaf :=
      fun leaf member => under_drop_of_dropLast (within leaf member)
    simp only [Tree.allLeaves, List.append_nil, Tree.ofChildren, Tree.leaves, List.mem_map,
      Tree.mem_allLeaves, Tree.mem_distinct_map_leaf]
    constructor
    · intro found
      rcases found with ⟨_, ⟨_, ⟨_, ⟨other, member, rfl⟩, rfl⟩, inside⟩, rfl⟩
      rw [Tree.leaves, List.mem_singleton] at inside
      rw [inside, restored other member]
      exact member
    · intro member
      exact ⟨_, ⟨_, ⟨_, ⟨leaf, member, rfl⟩, rfl⟩, List.mem_singleton_self _⟩,
        restored leaf member⟩

theorem regular_of_mem_moduleTrees (within : ∀ leaf ∈ members, leaf.path.dropLast = parent)
    (nonempty : members ≠ []) (paths : ∀ leaf ∈ members, leaf.path ≠ []) :
    ∀ tree ∈ moduleTrees parent members, tree.Regular := by
  intro tree member
  unfold moduleTrees at member
  split at member
  · rcases List.mem_map.mp member with ⟨leaf, inside, rfl⟩
    exact .leaf (paths leaf inside)
  · next several =>
      simp only [Bool.or_eq_true, decide_eq_true_eq, not_or] at several
      rw [List.mem_singleton.mp member]
      refine .group several.1 ?_ ?_
      · rcases List.exists_mem_of_ne_nil members nonempty with ⟨leaf, inside⟩
        have child := List.mem_map_of_mem (f := Tree.leaf) (List.mem_map_of_mem
          (f := fun leaf : Leaf => { leaf with path := leaf.path.drop parent.length }) inside)
        exact List.ne_nil_of_mem (Tree.mem_distinct_map_leaf.mpr child)
      · intro child inside
        rw [Tree.mem_distinct_map_leaf] at inside
        rcases List.mem_map.mp inside with ⟨_, shortened, rfl⟩
        rcases List.mem_map.mp shortened with ⟨leaf, member, rfl⟩
        exact .leaf ((drop_of_dropLast (within leaf member)).2 (paths leaf member))

theorem mem_allLeaves_trees {granularity : Granularity} {leaves : List Leaf} {leaf : Leaf} :
    leaf ∈ Tree.allLeaves (granularity.trees leaves) ↔ leaf ∈ leaves := by
  cases granularity with
  | crate => exact Tree.mem_allLeaves_factor
  | item => rw [trees, Tree.allLeaves_map_leaf]
  | module =>
      have gathered := (flatMap_gather_perm (fun leaf : Leaf => leaf.path.dropLast) leaves).mem_iff
        (a := leaf)
      rw [← gathered, trees, Tree.allLeaves_eq_flatMap, List.flatMap_assoc]
      simp only [List.mem_flatMap]
      apply exists_congr
      intro group
      apply and_congr_right
      intro member
      have each := @mem_allLeaves_moduleTrees group.1 group.2
        (fun leaf inside => ((of_mem_gather member).2 leaf inside).2) leaf
      rw [← each, Tree.mem_allLeaves]

theorem regular_of_mem_trees {granularity : Granularity} {leaves : List Leaf}
    (paths : ∀ leaf ∈ leaves, leaf.path ≠ []) :
    ∀ tree ∈ granularity.trees leaves, tree.Regular := by
  cases granularity with
  | crate =>
      apply Tree.regular_of_mem_factorTo
      intro leaf member
      exact paths leaf (List.mem_eraseDups.mp member)
  | item =>
      intro tree member
      rcases List.mem_map.mp member with ⟨leaf, inside, rfl⟩
      exact .leaf (paths leaf inside)
  | module =>
      intro tree member
      rcases List.mem_flatMap.mp member with ⟨group, gathered, inside⟩
      rcases of_mem_gather gathered with ⟨nonempty, within⟩
      exact regular_of_mem_moduleTrees (fun leaf inside => (within leaf inside).2) nonempty
        (fun leaf inside => paths leaf (within leaf inside).1) tree inside

end Granularity

end ImportBlock
