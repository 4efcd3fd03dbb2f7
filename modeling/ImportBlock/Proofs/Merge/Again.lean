import ImportBlock.Proofs.Merge.Survivors

/-! Merging what is left of a merge. It succeeds and leaves all as it is: no import that was kept makes
another one redundant, and what is in no conflict with all imports is in none with some of them. -/

namespace ImportBlock

namespace Leaf

variable {byRename : Bool} {all some : List Leaf} {leaf : Leaf}

theorem mem_absorb_of_subset (inside : ∀ leaf ∈ some, leaf ∈ all) (member : leaf ∈ some)
    (kept : leaf ∈ absorb byRename all) : leaf ∈ absorb byRename some := by
  rw [mem_absorb] at kept ⊢
  refine ⟨member, ?_, ?_⟩
  · intro renamed
    rcases renamed with ⟨allowed, other, lies, renames⟩
    exact kept.2.1 ⟨allowed, other, inside other lies, renames⟩
  · intro covered
    rcases covered with ⟨other, lies, covers⟩
    exact kept.2.2 ⟨other, inside other lies, covers⟩

theorem mem_absorb_of_rename {name : String} (renamed : leaf.rename = Option.some name)
    (member : leaf ∈ all) : leaf ∈ absorb byRename all := by
  rw [mem_absorb]
  simp [isRenamedBy, isCoveredBy, renamed, member]

theorem exists_absorb_isCoveredBy {other : Leaf} (member : other ∈ all)
    (covers : leaf.isCoveredBy other = true) :
    ∃ other ∈ absorb byRename all, leaf.isCoveredBy other = true := by
  by_cases kept : other ∈ absorb byRename all
  · exact ⟨other, kept, covers⟩
  · have stays : ¬∃ third ∈ all, other.isCoveredBy third = true := by
      intro covered
      rcases covered with ⟨third, _, covered⟩
      rcases isCoveredBy_iff.mp covers with ⟨_, _, parents, _, glob, _, _, path, kind⟩
      rcases isCoveredBy_iff.mp covered with ⟨_, _, parents', name, _, path', kind', _, _⟩
      rw [path] at path'
      rw [(List.append_singleton_inj.mp path').2, kind'] at kind
      cases kind
    rw [mem_absorb] at kept
    have renamed : byRename = true ∧ ∃ third ∈ all, other.isRenamedBy third = true := by
      apply Classical.byContradiction
      intro alone
      exact kept ⟨member, alone, stays⟩
    rcases renamed with ⟨_, third, inside, renames⟩
    rcases isRenamedBy_iff.mp renames with ⟨_, _, _, name, rename, _⟩
    exact ⟨third, mem_absorb_of_rename rename inside, isCoveredBy_of_isRenamedBy covers renames⟩

theorem mem_absorb_of_between (inside : ∀ leaf ∈ some, leaf ∈ all)
    (kept : ∀ leaf ∈ absorb byRename all, leaf ∈ some) :
    leaf ∈ absorb byRename some ↔ leaf ∈ absorb byRename all := by
  constructor
  · intro stays
    rw [mem_absorb] at stays
    rw [mem_absorb]
    refine ⟨inside leaf stays.1, ?_, ?_⟩
    · intro renamed
      rcases renamed with ⟨allowed, other, lies, renames⟩
      rcases isRenamedBy_iff.mp renames with ⟨_, _, _, name, rename, _⟩
      exact stays.2.1 ⟨allowed, other, kept other (mem_absorb_of_rename rename lies), renames⟩
    · intro covered
      rcases covered with ⟨other, lies, covers⟩
      rcases exists_absorb_isCoveredBy lies covers with ⟨other', lies', covers'⟩
      exact stays.2.2 ⟨other', kept other' lies', covers'⟩
  · intro stays
    exact mem_absorb_of_subset inside (kept leaf stays) stays

end Leaf

namespace MergedSet

variable {forests again : List Forest} {absorbByRename : Bool} {merged : MergedSet}

theorem mem_leaves_iff_mem_absorb (success : merge forests absorbByRename = .ok merged)
    {leaf : Leaf} :
    leaf ∈ merged.leaves ↔ leaf ∈ Leaf.absorb absorbByRename (Forest.imports forests) := by
  rcases exists_entries_of_merge success with ⟨entries, ⟨separate, leaves⟩, _, rfl⟩
  rw [(leaves_absorb_perm separate absorbByRename).mem_iff]
  simp only [Leaf.mem_absorb, leaves]

theorem mem_imports_of_mem_leaves (success : merge forests absorbByRename = .ok merged)
    {leaf : Leaf} (member : leaf ∈ merged.leaves) : leaf ∈ Forest.imports forests :=
  (Leaf.absorb_sublist absorbByRename _).mem ((mem_leaves_iff_mem_absorb success).mp member)

theorem exists_merge_of_subset (success : merge forests absorbByRename = .ok merged)
    (inside : ∀ leaf ∈ Forest.imports again, leaf ∈ Forest.imports forests) :
    ∃ result, merge again absorbByRename = .ok result ∧
      ∃ leaves, result = ⟨Tree.factor leaves⟩ ∧
        ∀ leaf, leaf ∈ leaves ↔ leaf ∈ Leaf.absorb absorbByRename (Forest.imports again) := by
  rcases exists_entries_of_merge success with ⟨entries, ⟨separate, leaves⟩, quiet, _⟩
  have present : ∀ leaf ∈ Forest.imports again, leaf ∈ entries.map (·.leaf) := by
    intro leaf member
    exact (leaves leaf).mpr (inside leaf member)
  rcases merge_cases again absorbByRename with
    ⟨first, second, inFirst, inSecond, contradicts, _⟩ | ⟨entries', ⟨_, leaves'⟩, ends⟩
  · exact absurd contradicts (separate.not_contradicts (present _ inFirst) (present _ inSecond))
  · have calm : Entry.bindingConflict? entries' = none := by
      rw [Entry.bindingConflict?_eq_none_iff] at quiet ⊢
      intro left inLeft right inRight
      exact quiet left (present left ((leaves' left).mp inLeft)) right
        (present right ((leaves' right).mp inRight))
    rcases ends with ⟨conflict, found, _⟩ | ⟨_, succeeded⟩
    · rw [calm] at found
      cases found
    · refine ⟨_, succeeded, _, rfl, ?_⟩
      intro leaf
      simp only [Leaf.mem_absorb, leaves']

/-- Forests that import less, but all that a merge kept, are merged into the same set. -/
theorem exists_merge_of_between (success : merge forests absorbByRename = .ok merged)
    (inside : ∀ leaf ∈ Forest.imports again, leaf ∈ Forest.imports forests)
    (kept : ∀ leaf ∈ merged.leaves, leaf ∈ Forest.imports again) :
    ∃ result, merge again absorbByRename = .ok result ∧ result.same merged = true := by
  rcases exists_merge_of_subset success inside with ⟨result, succeeded, leaves, rfl, found⟩
  rcases exists_merge_of_subset success fun _ member => member with
    ⟨_, succeeded', leaves', rfl, found'⟩
  rw [success] at succeeded'
  cases succeeded'
  refine ⟨_, succeeded, ?_⟩
  apply Tree.factor_sameSet
  intro leaf
  rw [found, found']
  apply Leaf.mem_absorb_of_between inside
  intro other stays
  exact kept other ((mem_leaves_iff_mem_absorb success).mpr stays)

/-- Forests that import exactly what a merge kept are merged into the same set again. -/
theorem exists_merge_of_imports (success : merge forests absorbByRename = .ok merged)
    (kept : ∀ leaf, leaf ∈ Forest.imports again ↔ leaf ∈ merged.leaves) :
    ∃ result, merge again absorbByRename = .ok result ∧ result.same merged = true := by
  apply exists_merge_of_between success
  · intro leaf member
    exact mem_imports_of_mem_leaves success ((kept leaf).mp member)
  · intro leaf member
    exact (kept leaf).mpr member

theorem nodup_leaves (success : merge forests absorbByRename = .ok merged) :
    merged.leaves.Nodup := by
  rcases exists_entries_of_merge success with ⟨entries, ⟨separate, _⟩, _, rfl⟩
  rw [(leaves_absorb_perm separate absorbByRename).nodup_iff]
  exact separate.nodup_map_leaf.sublist (Leaf.absorb_sublist absorbByRename _)

theorem leaves_eq_of_imports (success : merge forests absorbByRename = .ok merged)
    (valid : ∀ leaf ∈ merged.leaves, leaf.path.IsValid)
    (kept : ∀ leaf, leaf ∈ Forest.imports again ↔ leaf ∈ merged.leaves) {result : MergedSet}
    (succeeded : merge again absorbByRename = .ok result) : result.leaves = merged.leaves := by
  have members : ∀ leaf, leaf ∈ result.leaves ↔ leaf ∈ merged.leaves := by
    intro leaf
    rw [mem_leaves_iff_mem_absorb success, mem_leaves_iff_mem_absorb succeeded]
    apply Leaf.mem_absorb_of_between
    · intro other imported
      exact mem_imports_of_mem_leaves success ((kept other).mp imported)
    · intro other stays
      exact (kept other).mpr ((mem_leaves_iff_mem_absorb success).mpr stays)
  have perm : result.leaves.Perm merged.leaves :=
    (List.perm_ext_iff_of_nodup (nodup_leaves succeeded) (nodup_leaves success)).mpr members
  have roots := result.leaves_perm.symm.trans (perm.trans merged.leaves_perm)
  apply Leaf.sorted_eq_of_perm _ roots
  intro leaf member
  exact valid leaf ((members leaf).mp (result.leaves_perm.mem_iff.mpr member))

end MergedSet

end ImportBlock
