import ImportBlock.Proofs.Forest
import ImportBlock.Proofs.Merge.Again

/-! Merging in stages. The outcome of a merge can stand for the forests that went into it when these
are merged with others: what the first stage drops is dropped later on anyway, and what makes it
redundant is kept for the stages to come. -/

namespace ImportBlock

namespace Forest

theorem mem_imports_append {left right : List Forest} {leaf : Leaf} :
    leaf ∈ imports (left ++ right) ↔ leaf ∈ imports left ∨ leaf ∈ imports right := by
  simp [imports]

theorem mem_imports_of_perm {left right : List Forest} (perm : left.Perm right) {leaf : Leaf} :
    leaf ∈ imports left ↔ leaf ∈ imports right :=
  (perm.flatMap_right _).mem_iff

theorem canonical_of_mem_imports {forests : List Forest} {leaf : Leaf}
    (member : leaf ∈ imports forests) : leaf.canonical = leaf := by
  rcases List.mem_flatMap.mp member with ⟨forest, _, found⟩
  rcases List.mem_map.mp found with ⟨original, _, rfl⟩
  exact Leaf.canonical_canonical original

theorem mem_imports_singleton {forest : Forest}
    (canonical : ∀ leaf ∈ forest.leaves, leaf.canonical = leaf) {leaf : Leaf} :
    leaf ∈ imports [forest] ↔ leaf ∈ forest.leaves := by
  rw [imports, List.flatMap_singleton, List.mem_map]
  constructor
  · intro imported
    rcases imported with ⟨original, member, rfl⟩
    rwa [canonical original member]
  · intro member
    exact ⟨leaf, member, canonical leaf member⟩

end Forest

namespace MergedSet

variable {earlier later forests : List Forest} {absorbByRename : Bool} {merged stage : MergedSet}

theorem mem_leaves_toForest {fragment : Int} {leaf : Leaf} :
    leaf ∈ (merged.toForest fragment).leaves ↔ leaf ∈ merged.leaves := by
  rw [Forest.leaves, toForest, sorted, Tree.mem_allLeaves_sorted, merged.leaves_perm.mem_iff]

theorem mem_imports_toForest (success : merge forests absorbByRename = .ok merged)
    {fragment : Int} {leaf : Leaf} :
    leaf ∈ Forest.imports [merged.toForest fragment] ↔ leaf ∈ merged.leaves := by
  rw [Forest.mem_imports_singleton, mem_leaves_toForest]
  intro other member
  have kept := mem_imports_of_mem_leaves success (mem_leaves_toForest.mp member)
  exact Forest.canonical_of_mem_imports kept

/-- The fragments that a merge succeeds on can be merged in two stages, the first stage coming into
the second as a fragment of its own, in whatever place and under whatever number. -/
theorem exists_merge_toForest_append (success : merge (earlier ++ later) absorbByRename = .ok merged) :
    ∃ stage, merge earlier absorbByRename = .ok stage ∧
      ∀ (fragment : Int) (again : List Forest), again.Perm (stage.toForest fragment :: later) →
        ∃ result, merge again absorbByRename = .ok result ∧ result.same merged = true := by
  have part : ∀ leaf ∈ Forest.imports earlier, leaf ∈ Forest.imports (earlier ++ later) :=
    fun leaf member => Forest.mem_imports_append.mpr (.inl member)
  rcases exists_merge_of_subset success part with ⟨stage, staged, _⟩
  refine ⟨stage, staged, ?_⟩
  intro fragment again perm
  have imports : ∀ leaf, leaf ∈ Forest.imports again ↔
      leaf ∈ Leaf.absorb absorbByRename (Forest.imports earlier) ∨ leaf ∈ Forest.imports later := by
    intro leaf
    rw [Forest.mem_imports_of_perm perm, ← List.singleton_append, Forest.mem_imports_append,
      mem_imports_toForest staged, mem_leaves_iff_mem_absorb staged]
  apply exists_merge_of_between success
  · intro leaf member
    rw [imports] at member
    exact Forest.mem_imports_append.mpr
      (member.imp_left fun kept => (Leaf.absorb_sublist absorbByRename _).mem kept)
  · -- An import of the first stage that the whole merge keeps was kept by the first stage.
    intro leaf member
    have kept := (mem_leaves_iff_mem_absorb success).mp member
    have imported := (Leaf.absorb_sublist absorbByRename _).mem kept
    rw [imports]
    exact (Forest.mem_imports_append.mp imported).imp_left fun inEarlier =>
      Leaf.mem_absorb_of_subset part inEarlier kept

theorem exists_merge_toForest_append_beside_glob :
    ∃ stage, merge [⟨0, [.leaf ⟨[.name "a", .name "b"], none, {}⟩]⟩,
        ⟨1, [.leaf ⟨[.name "a", .glob], none, {}⟩]⟩] true = .ok stage ∧
      ∃ result, merge [stage.toForest 7, ⟨2, [.leaf ⟨[.name "a", .name "c"], none, {}⟩]⟩] true =
          .ok result ∧
        result.same ⟨[.leaf ⟨[.name "a", .glob], none, {}⟩]⟩ = true := by
  have success : merge ([⟨0, [.leaf ⟨[.name "a", .name "b"], none, {}⟩]⟩,
      ⟨1, [.leaf ⟨[.name "a", .glob], none, {}⟩]⟩] ++
        [⟨2, [.leaf ⟨[.name "a", .name "c"], none, {}⟩]⟩]) true =
      .ok ⟨[.leaf ⟨[.name "a", .glob], none, {}⟩]⟩ := by cbv
  rcases exists_merge_toForest_append success with ⟨stage, staged, again⟩
  exact ⟨stage, staged, again 7 _ (List.Perm.refl _)⟩

end MergedSet

end ImportBlock
