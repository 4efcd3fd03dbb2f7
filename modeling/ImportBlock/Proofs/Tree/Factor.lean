import ImportBlock.Proofs.Gather
import ImportBlock.Tree.Equality
import ImportBlock.Tree.Factor

/-! Factoring keeps the leaves: the trees that leaves are factored into have these leaves and no
others, each once. Two lists with the same leaves are factored into the same trees. -/

namespace ImportBlock

namespace Leaf

theorem under_under (outer inner : Path) (leaf : Leaf) :
    (leaf.under inner).under outer = leaf.under (outer ++ inner) := by
  simp [under]

end Leaf

namespace Tree

theorem allLeaves_eq_flatMap (trees : List Tree) : allLeaves trees = trees.flatMap leaves := by
  induction trees with
  | nil => rfl
  | cons tree rest induction => rw [allLeaves, induction, List.flatMap_cons]

@[simp] theorem allLeaves_map_leaf (leaves : List Leaf) :
    allLeaves (leaves.map Tree.leaf) = leaves := by
  induction leaves with
  | nil => rfl
  | cons leaf rest induction => rw [List.map_cons, allLeaves, induction]; rfl

theorem allLeaves_append (left right : List Tree) :
    allLeaves (left ++ right) = allLeaves left ++ allLeaves right := by
  simp only [allLeaves_eq_flatMap, List.flatMap_append]

theorem allLeaves_perm {left right : List Tree} (perm : left.Perm right) :
    (allLeaves left).Perm (allLeaves right) := by
  simp only [allLeaves_eq_flatMap]
  exact perm.flatMap_right _

/-! ## The leaves of factored trees -/

theorem length_le_depth {leaves : List Leaf} {leaf : Leaf} (member : leaf ∈ leaves) :
    leaf.path.length ≤ depth leaves := by
  induction leaves with
  | nil => cases member
  | cons first rest induction =>
      rcases List.mem_cons.mp member with rfl | later
      · exact Nat.le_max_left _ _
      · exact Nat.le_trans (induction later) (Nat.le_max_right _ _)

theorem leaves_underStem (stem : Path) (children : List Tree) :
    (underStem stem children).leaves = (allLeaves children).map (Leaf.under stem) := by
  unfold underStem
  split
  · rfl
  · simp only [leaves, allLeaves, List.append_nil, List.map_map]
    apply List.map_congr_left
    intro leaf _
    exact (Leaf.under_under _ _ leaf).symm
  · rw [leaves]

theorem map_under_tails {stem : Path} {members : List Leaf}
    (within : ∀ leaf ∈ members, leaf.path.take 1 = stem) :
    (tails members).map (Leaf.under stem) = members := by
  apply map_map_eq_self
  intro leaf member
  rcases leaf with ⟨path, rename, metadata⟩
  have start := within _ member
  simp only [Leaf.under, ← start, Leaf.mk.injEq, and_true]
  rw [← List.drop_one, List.take_append_drop]

def bucket (depth : Nat) (head : Path) : List Leaf → Tree
  | [only] => .leaf only
  | members => underStem head (factorTo depth (tails members))

theorem factorTo_succ (depth : Nat) (leaves : List Leaf) :
    factorTo (depth + 1) leaves =
      (leaves.filter fun leaf => leaf.path.length ≤ 1).map .leaf ++
        (gather (fun leaf : Leaf => leaf.path.take 1)
          (leaves.filter fun leaf => 1 < leaf.path.length)).map fun (head, members) =>
            bucket depth head members := by
  rw [factorTo]
  congr 2
  funext group
  rcases group with ⟨head, _ | ⟨only, _ | _⟩⟩ <;> rfl

theorem leaves_bucket_perm {depth : Nat} {head : Path} {members : List Leaf}
    (inner : ∀ leaves, (allLeaves (factorTo depth leaves)).Perm leaves)
    (within : ∀ leaf ∈ members, leaf.path.take 1 = head) :
    (bucket depth head members).leaves.Perm members := by
  unfold bucket
  split
  · exact List.Perm.refl _
  · rw [leaves_underStem]
    apply ((inner (tails members)).map _).trans
    rw [map_under_tails within]

theorem allLeaves_factorTo_perm (depth : Nat) (leaves : List Leaf) :
    (allLeaves (factorTo depth leaves)).Perm leaves := by
  induction depth generalizing leaves with
  | zero => rw [factorTo, allLeaves_map_leaf]
  | succ depth induction =>
      rw [factorTo_succ, allLeaves_append, allLeaves_map_leaf]
      refine List.Perm.trans (List.Perm.append_left _ ?_)
        (filter_le_append_filter_lt_perm (fun leaf : Leaf => leaf.path.length) 1 leaves)
      rw [allLeaves_eq_flatMap, List.flatMap_map]
      refine List.Perm.trans (List.Perm.flatMap_left _ ?_) (flatMap_gather_perm _ _)
      intro group gathered
      have within := (of_mem_gather gathered).2
      exact leaves_bucket_perm induction fun leaf member => (within leaf member).2

theorem allLeaves_factor_perm (leaves : List Leaf) :
    (allLeaves (factor leaves)).Perm leaves.eraseDups :=
  allLeaves_factorTo_perm _ _

theorem mem_allLeaves_factor {leaves : List Leaf} {leaf : Leaf} :
    leaf ∈ allLeaves (factor leaves) ↔ leaf ∈ leaves := by
  rw [(allLeaves_factor_perm leaves).mem_iff, List.mem_eraseDups]

/-! ## The same leaves give the same trees -/

/-- Stems do not tell apart lists that enumerate one set of trees without repeating any. -/
theorem underStem_same {stem : Path} {left right : List Tree} (length : left.length = right.length)
    (equal : sameSet left right = true) :
    (underStem stem left).same (underStem stem right) = true := by
  by_cases single : left.length = 1
  · rcases List.length_eq_one_iff.mp single with ⟨tree, rfl⟩
    rcases List.length_eq_one_iff.mp (length ▸ single) with ⟨other, rfl⟩
    have pair : tree.same other = true := by simpa [sameSet_eq_true] using equal
    cases tree with
    | leaf only =>
        cases other with
        | leaf only' =>
            have leaves : only = only' := by simpa [same] using pair
            rw [leaves]
            exact same_refl _
        | group _ _ => simp [same] at pair
    | group inner children =>
        cases other with
        | leaf _ => simp [same] at pair
        | group inner' children' =>
            rw [same_group] at pair
            simp only [underStem, same_group]
            exact ⟨congrArg _ pair.1, pair.2⟩
  · have group : ∀ {trees : List Tree}, trees.length ≠ 1 →
        underStem stem trees = .group stem trees := by
      intro trees several
      unfold underStem
      split
      · simp at several
      · simp at several
      · rfl
    rw [group single, group (length ▸ single), same_group]
    exact ⟨rfl, sameSet_eq_true.mp equal⟩

theorem length_factorTo_of_perm {left right : List Leaf} (depth : Nat) (perm : left.Perm right) :
    (factorTo depth left).length = (factorTo depth right).length := by
  cases depth with
  | zero => simp [factorTo, perm.length_eq]
  | succ depth =>
      simp only [factorTo, List.length_append, List.length_map]
      rw [(perm.filter _).length_eq, length_gather_of_perm (perm.filter _)]

/-- Each tree of the one factoring has its equal in the other. -/
theorem exists_same_of_mem_factorTo {left right : List Leaf} (depth : Nat)
    (perm : left.Perm right) :
    ∀ tree ∈ factorTo depth left, ∃ other ∈ factorTo depth right, tree.same other = true := by
  induction depth generalizing left right with
  | zero =>
      intro tree member
      refine ⟨tree, ?_, same_refl tree⟩
      exact (perm.map _).mem_iff.mp member
  | succ depth induction =>
      intro tree member
      rw [factorTo] at member ⊢
      simp only [List.mem_append, List.mem_map] at member ⊢
      rcases member with ⟨leaf, short, rfl⟩ | ⟨⟨head, members⟩, gathered, rfl⟩
      · exact ⟨.leaf leaf, .inl ⟨leaf, (perm.filter _).mem_iff.mp short, rfl⟩, same_refl _⟩
      · rcases gather_of_perm (perm.filter _) gathered with ⟨members', gathered', membersPerm⟩
        refine ⟨_, .inr ⟨⟨head, members'⟩, gathered', rfl⟩, ?_⟩
        by_cases single : members.length = 1
        · rcases List.length_eq_one_iff.mp single with ⟨only, rfl⟩
          rw [List.perm_singleton.mp membersPerm.symm]
          exact same_refl _
        · have several : members'.length ≠ 1 := membersPerm.length_eq ▸ single
          have tailsPerm : (tails members).Perm (tails members') := membersPerm.map _
          dsimp only
          split
          · exact absurd List.length_singleton single
          · split
            · exact absurd List.length_singleton several
            · apply underStem_same (length_factorTo_of_perm depth tailsPerm)
              rw [sameSet_eq_true]
              refine ⟨induction tailsPerm, ?_⟩
              intro other inside
              rcases induction tailsPerm.symm other inside with ⟨tree, inside', equal⟩
              exact ⟨tree, inside', same_symm equal⟩

theorem depth_of_perm {left right : List Leaf} (perm : left.Perm right) :
    depth left = depth right := by
  unfold depth
  apply perm.foldr_eq'
  intro _ _ _ _ deepest
  simp only [Nat.max_left_comm]

/-- The trees depend on the set of the leaves only. -/
theorem factor_sameSet {left right : List Leaf} (equal : ∀ leaf, leaf ∈ left ↔ leaf ∈ right) :
    sameSet (factor left) (factor right) = true := by
  have perm := eraseDups_perm equal
  rw [sameSet_eq_true]
  simp only [factor, depth_of_perm perm]
  refine ⟨exists_same_of_mem_factorTo _ perm, ?_⟩
  intro other member
  rcases exists_same_of_mem_factorTo _ perm.symm other member with ⟨tree, member', same⟩
  exact ⟨tree, member', same_symm same⟩

end Tree

end ImportBlock
