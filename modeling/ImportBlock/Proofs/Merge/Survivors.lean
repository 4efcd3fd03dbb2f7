import ImportBlock.Proofs.Merge.Conflicts
import ImportBlock.Proofs.Tree.Factor
import Mathlib

/-! Which imports a merged set holds: all but those that another import makes redundant. -/

namespace ImportBlock

namespace Leaf

theorem isRenamedBy_iff {leaf other : Leaf} :
    leaf.isRenamedBy other = true ↔ leaf.rename = none ∧ other.path = leaf.path ∧
      other.metadata = leaf.metadata ∧ ∃ name, other.rename = some name ∧ name ≠ "_" := by
  simp [isRenamedBy, and_assoc, Option.any_eq_true]

theorem isCoveredBy_iff {leaf other : Leaf} :
    leaf.isCoveredBy other = true ↔ leaf.rename = none ∧ other.metadata = leaf.metadata ∧
      ∃ parents last glob, leaf.path = parents ++ [last] ∧ last.kind = .name ∧
        other.path = parents ++ [glob] ∧ glob.kind = .glob := by
  simp only [isCoveredBy, isGlob, Bool.and_eq_true, decide_eq_true_eq, Option.any_eq_true,
    List.getLast?_eq_some_iff, Segment.isGlob]
  constructor
  · intro covered
    rcases covered with ⟨⟨⟨⟨rename, last, ⟨parents, path⟩, name⟩, glob, ⟨parents', path'⟩, kind⟩,
      beside⟩, metadata⟩
    rw [path, path', List.dropLast_concat, List.dropLast_concat] at beside
    exact ⟨rename, metadata, parents, last, glob, path, name, beside ▸ path', kind⟩
  · intro covered
    rcases covered with ⟨rename, metadata, parents, last, glob, path, name, path', kind⟩
    refine ⟨⟨⟨⟨rename, last, ⟨parents, path⟩, name⟩, glob, ⟨parents, path'⟩, kind⟩, ?_⟩, metadata⟩
    rw [path, path', List.dropLast_concat, List.dropLast_concat]

theorem isCoveredBy_of_isRenamedBy {leaf other third : Leaf}
    (covered : leaf.isCoveredBy other = true) (renamed : other.isRenamedBy third = true) :
    leaf.isCoveredBy third = true := by
  rw [isCoveredBy_iff] at covered ⊢
  rw [isRenamedBy_iff] at renamed
  rcases covered with ⟨rename, metadata, parents, last, glob, path, name, path', kind⟩
  exact ⟨rename, renamed.2.2.1.trans metadata, parents, last, glob, path, name,
    renamed.2.1.trans path', kind⟩

theorem not_isRenamedBy_of_isRenamedBy {leaf other third : Leaf}
    (renamed : leaf.isRenamedBy other = true) : ¬other.isRenamedBy third = true := by
  rw [isRenamedBy_iff] at renamed ⊢
  rcases renamed with ⟨_, _, _, name, rename, _⟩
  simp [rename]

/-- The second pass finds its globs among the leaves that the first one left just as well as among
all leaves. -/
theorem any_filter_isCoveredBy (leaves : List Leaf) (leaf : Leaf) :
    ((leaves.filter fun other => !leaves.any other.isRenamedBy).any leaf.isCoveredBy) =
      leaves.any leaf.isCoveredBy := by
  rw [Bool.eq_iff_iff]
  simp only [List.any_eq_true, List.mem_filter, Bool.not_eq_true', List.any_eq_false]
  constructor
  · intro kept
    rcases kept with ⟨other, ⟨member, _⟩, covered⟩
    exact ⟨other, member, covered⟩
  · intro covering
    rcases covering with ⟨other, member, covered⟩
    by_cases dropped : ∃ third ∈ leaves, other.isRenamedBy third = true
    · rcases dropped with ⟨third, inside, renamed⟩
      exact ⟨third, ⟨inside, fun _ _ => not_isRenamedBy_of_isRenamedBy renamed⟩,
        isCoveredBy_of_isRenamedBy covered renamed⟩
    · refine ⟨other, ⟨member, ?_⟩, covered⟩
      intro third inside renamed
      exact dropped ⟨third, inside, renamed⟩

theorem mem_absorb {byRename : Bool} {leaves : List Leaf} {leaf : Leaf} :
    leaf ∈ absorb byRename leaves ↔ leaf ∈ leaves ∧
      ¬(byRename = true ∧ ∃ other ∈ leaves, leaf.isRenamedBy other = true) ∧
        ¬∃ other ∈ leaves, leaf.isCoveredBy other = true := by
  cases byRename with
  | false => simp [absorb]
  | true =>
      simp only [absorb, if_true, List.mem_filter, any_filter_isCoveredBy, Bool.not_eq_true',
        ← Bool.not_eq_true, List.any_eq_true, true_and, and_assoc]

theorem absorb_sublist (byRename : Bool) (leaves : List Leaf) :
    (absorb byRename leaves).Sublist leaves := by
  cases byRename with
  | false => exact List.filter_sublist
  | true => exact List.filter_sublist.trans List.filter_sublist

end Leaf

namespace MergedSet

theorem leaves_perm (merged : MergedSet) : merged.leaves.Perm (Tree.allLeaves merged.roots) :=
  List.mergeSort_perm _ _

/-- A merge that succeeds factors what its entries make necessary. -/
theorem exists_entries_of_merge {forests : List Forest} {absorbByRename : Bool}
    {merged : MergedSet} (success : merge forests absorbByRename = .ok merged) :
    ∃ entries, Entry.Collects entries forests ∧ Entry.bindingConflict? entries = none ∧
      merged = ⟨Tree.factor (Leaf.absorb absorbByRename (entries.map (·.leaf)))⟩ := by
  rcases merge_cases forests absorbByRename with
    ⟨first, second, _, _, _, failed⟩ | ⟨entries, collects, ends⟩
  · rw [failed] at success
    cases success
  · rcases ends with ⟨conflict, _, failed⟩ | ⟨quiet, succeeded⟩
    · rw [failed] at success
      cases success
    · rw [succeeded] at success
      exact ⟨entries, collects, quiet, (Except.ok.inj success).symm⟩

theorem leaves_factor_perm {leaves : List Leaf} (nodup : leaves.Nodup) :
    (MergedSet.leaves ⟨Tree.factor leaves⟩).Perm leaves := by
  apply (leaves_perm _).trans
  simpa only [eraseDups_eq_self nodup] using Tree.allLeaves_factor_perm leaves

theorem leaves_absorb_perm {entries : List Entry} (separate : Entry.Separate entries)
    (absorbByRename : Bool) :
    (MergedSet.leaves ⟨Tree.factor (Leaf.absorb absorbByRename (entries.map (·.leaf)))⟩).Perm
      (Leaf.absorb absorbByRename (entries.map (·.leaf))) :=
  leaves_factor_perm (separate.nodup_map_leaf.sublist (Leaf.absorb_sublist absorbByRename _))

/-- A merged set holds every import once, and no two imports of one path and rename. It holds exactly
the imports that neither a rename of the same path nor a glob beside them makes redundant. -/
theorem mem_leaves_of_merge {forests : List Forest} {absorbByRename : Bool} {merged : MergedSet}
    (success : merge forests absorbByRename = .ok merged) :
    merged.leaves.Nodup ∧
    (merged.leaves.Pairwise fun left right =>
      ¬(left.path = right.path ∧ left.rename = right.rename)) ∧
    ∀ leaf, leaf ∈ merged.leaves ↔ leaf ∈ Forest.imports forests ∧
      ¬(absorbByRename = true ∧ leaf.rename = none ∧
        ∃ other ∈ Forest.imports forests, other.path = leaf.path ∧
          other.metadata = leaf.metadata ∧ ∃ name, other.rename = some name ∧ name ≠ "_") ∧
      ¬(leaf.rename = none ∧
        ∃ other ∈ Forest.imports forests, other.metadata = leaf.metadata ∧
          ∃ parents last glob, leaf.path = parents ++ [last] ∧ last.kind = .name ∧
            other.path = parents ++ [glob] ∧ glob.kind = .glob) := by
  rcases exists_entries_of_merge success with ⟨entries, ⟨separate, leaves⟩, _, result⟩
  have perm : merged.leaves.Perm (Leaf.absorb absorbByRename (entries.map (·.leaf))) :=
    result ▸ leaves_absorb_perm separate absorbByRename
  have apart : merged.leaves.Pairwise fun left right =>
      ¬(left.path = right.path ∧ left.rename = right.rename) := by
    refine (perm.pairwise_iff ?_).mpr
      (separate.map_leaf.sublist (Leaf.absorb_sublist absorbByRename _))
    intro left right different equal
    exact different ⟨equal.1.symm, equal.2.symm⟩
  refine ⟨apart.imp fun different equal => different ⟨congrArg _ equal, congrArg _ equal⟩,
    apart, ?_⟩
  intro leaf
  rw [perm.mem_iff, Leaf.mem_absorb]
  simp only [leaves, Leaf.isRenamedBy_iff, Leaf.isCoveredBy_iff]
  simp only [and_left_comm (b := leaf.rename = none), exists_and_left]

theorem mem_leaves_of_merge_beside_glob :
    ∃ merged, merge [⟨0, [.leaf ⟨[.name "a", .name "b"], none, {}⟩]⟩,
        ⟨1, [.leaf ⟨[.name "a", .glob], none, {}⟩]⟩] true = .ok merged ∧
      merged.leaves.Nodup ∧ ⟨[.name "a", .name "b"], none, {}⟩ ∉ merged.leaves := by
  have success : merge [⟨0, [.leaf ⟨[.name "a", .name "b"], none, {}⟩]⟩,
      ⟨1, [.leaf ⟨[.name "a", .glob], none, {}⟩]⟩] true =
        .ok ⟨[.leaf ⟨[.name "a", .glob], none, {}⟩]⟩ := by cbv
  have kept := mem_leaves_of_merge success
  refine ⟨_, success, kept.1, ?_⟩
  rw [kept.2.2]
  intro present
  exact present.2.2 ⟨rfl, ⟨[.name "a", .glob], none, {}⟩, by decide, rfl, [.name "a"], .name "b",
    .glob, rfl, rfl, rfl, rfl⟩

end MergedSet

end ImportBlock
