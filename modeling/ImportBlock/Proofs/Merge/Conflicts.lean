import ImportBlock.Merge.MergedSet
import ImportBlock.Proofs.Merge.Visit

/-! When a merge fails. It fails exactly on imports that are in conflict: on one import with different
metadata, and else on two renames that compete for a path or for a name. Looking for the first
conflict in the order of the visit finds one whenever there is a pair that is in conflict. -/

namespace ImportBlock

/-- Whether two leaves bind names that cannot stand beside each other: neither is the underscore, they
may exist in one build, and they give one path two names or one name two paths. -/
def Leaf.Competes (left right : Leaf) : Prop :=
  ∃ name name', left.rename = some name ∧ right.rename = some name' ∧ name ≠ "_" ∧ name' ≠ "_" ∧
    (left.metadata.scope = [] ∨ right.metadata.scope = [] ∨
      ∀ condition, condition ∈ left.metadata.scope ↔ condition ∈ right.metadata.scope) ∧
    (left.path.text = right.path.text ∧ name ≠ name' ∨
      name = name' ∧ left.path.text ≠ right.path.text)

/-- Whether two imports cannot be merged. -/
def Leaf.Conflicts (left right : Leaf) : Prop := left.Contradicts right ∨ left.Competes right

def Forest.Competing (forests : List Forest) : Prop :=
  ∃ left ∈ imports forests, ∃ right ∈ imports forests, left.Competes right

namespace Metadata

theorem overlaps_iff {left right : Metadata} :
    left.overlaps right = true ↔ left.scope = [] ∨ right.scope = [] ∨
      ∀ condition, condition ∈ left.scope ↔ condition ∈ right.scope := by
  simp only [overlaps, Bool.or_eq_true, Bool.and_eq_true, List.isEmpty_iff, List.all_eq_true,
    List.contains_iff_mem, or_assoc]
  refine or_congr_right (or_congr_right ?_)
  exact ⟨fun both condition => ⟨both.1 condition, both.2 condition⟩,
    fun same => ⟨fun condition => (same condition).mp, fun condition => (same condition).mpr⟩⟩

theorem overlaps_comm (left right : Metadata) : left.overlaps right = right.overlaps left := by
  rw [Bool.eq_iff_iff, overlaps_iff, overlaps_iff]
  simp only [or_left_comm (a := left.scope = []), iff_comm (a := _ ∈ left.scope)]

end Metadata

namespace Entry

namespace Binding

/-- Whether two bindings give one path two names or one name two paths, in one build. -/
def Clashes (left right : Binding) : Prop :=
  left.renamesOtherwise right = true ∨ left.bindsOtherwise right = true

theorem clashes_iff {left right : Binding} :
    left.Clashes right ↔ left.metadata.overlaps right.metadata = true ∧
      (left.path = right.path ∧ left.name ≠ right.name ∨
        left.name = right.name ∧ left.path ≠ right.path) := by
  simp only [Clashes, renamesOtherwise, bindsOtherwise, Bool.and_eq_true, decide_eq_true_eq]
  constructor
  · intro clash
    rcases clash with ⟨⟨path, name⟩, overlap⟩ | ⟨⟨name, path⟩, overlap⟩
    · exact ⟨overlap, .inl ⟨path.symm, name.symm⟩⟩
    · exact ⟨overlap, .inr ⟨name.symm, path.symm⟩⟩
  · intro clash
    rcases clash with ⟨overlap, ⟨path, name⟩ | ⟨name, path⟩⟩
    · exact .inl ⟨⟨path.symm, name.symm⟩, overlap⟩
    · exact .inr ⟨⟨name.symm, path.symm⟩, overlap⟩

theorem Clashes.symm {left right : Binding} (clashes : left.Clashes right) :
    right.Clashes left := by
  rw [clashes_iff] at clashes ⊢
  rw [Metadata.overlaps_comm]
  exact ⟨clashes.1, clashes.2.imp (fun both => ⟨both.1.symm, both.2.symm⟩)
    fun both => ⟨both.1.symm, both.2.symm⟩⟩

theorem not_clashes_self (binding : Binding) : ¬binding.Clashes binding := by
  rw [clashes_iff]
  intro clash
  rcases clash with ⟨_, ⟨_, different⟩ | ⟨_, different⟩⟩ <;> exact different rfl

theorem conflict?_eq_none_iff {earlier : List Binding} {binding : Binding} :
    binding.conflict? earlier = none ↔ ∀ other ∈ earlier, ¬binding.Clashes other := by
  unfold conflict?
  cases renamed : earlier.find? binding.renamesOtherwise with
  | some other =>
      simp only [reduceCtorEq, false_iff]
      intro none
      exact none other (List.mem_of_find?_eq_some renamed) (.inl (List.find?_some renamed))
  | none =>
      rw [List.find?_eq_none] at renamed
      cases bound : earlier.find? binding.bindsOtherwise with
      | some other =>
          simp only [reduceCtorEq, false_iff]
          intro none
          exact none other (List.mem_of_find?_eq_some bound) (.inr (List.find?_some bound))
      | none =>
          rw [List.find?_eq_none] at bound
          simp only [true_iff]
          intro other member clash
          rcases clash with clash | clash
          · exact renamed other member clash
          · exact bound other member clash

/-- The search passes over bindings exactly if none of them clashes with one before it. -/
theorem firstConflict?_eq_none_iff {earlier rest : List Binding} :
    firstConflict? earlier rest = none ↔
      (∀ binding ∈ rest, ∀ other ∈ earlier, ¬binding.Clashes other) ∧
        rest.Pairwise fun other binding => ¬binding.Clashes other := by
  induction rest generalizing earlier with
  | nil => simp [firstConflict?]
  | cons binding rest induction =>
      unfold firstConflict?
      cases found : binding.conflict? earlier with
      | some conflict =>
          simp only [reduceCtorEq, false_iff]
          intro none
          have quiet := conflict?_eq_none_iff.mpr (none.1 binding List.mem_cons_self)
          rw [quiet] at found
          cases found
      | none =>
          rw [conflict?_eq_none_iff] at found
          simp only [induction, List.forall_mem_cons, List.pairwise_cons, List.forall_mem_append,
            List.mem_singleton, forall_eq]
          constructor
          · intro passed
            rcases passed with ⟨apart, pairs⟩
            exact ⟨⟨found, fun later member => (apart later member).1⟩,
              fun later member => (apart later member).2, pairs⟩
          · intro passed
            rcases passed with ⟨⟨_, apart⟩, apart', pairs⟩
            exact ⟨fun later member => ⟨apart later member, apart' later member⟩, pairs⟩

theorem of_firstConflict?_eq_some {earlier rest : List Binding} {conflict : Conflict}
    (found : firstConflict? earlier rest = some conflict) :
    (∃ path names fragments, conflict = .renames path names fragments) ∨
      ∃ name paths fragments, conflict = .bindings name paths fragments := by
  induction rest generalizing earlier with
  | nil => cases found
  | cons binding rest induction =>
      unfold firstConflict? at found
      split at found
      case h_1 here =>
        cases found
        unfold conflict? at here
        split at here
        · cases here
          exact .inl ⟨_, _, _, rfl⟩
        · split at here
          · cases here
            exact .inr ⟨_, _, _, rfl⟩
          · cases here
      case h_2 => exact induction found

end Binding

theorem binding?_eq_some_iff {entry : Entry} {binding : Binding} :
    entry.binding? = some binding ↔ ∃ name, entry.leaf.rename = some name ∧ name ≠ "_" ∧
      binding = ⟨entry.leaf.path.text, name, entry.leaf.metadata, entry.fragment⟩ := by
  unfold binding?
  cases entry.leaf.rename with
  | none => simp
  | some name => by_cases discarded : name = "_" <;> simp [discarded, eq_comm]

theorem competes_iff_exists_clashes {left right : Entry} :
    left.leaf.Competes right.leaf ↔ ∃ binding other, left.binding? = some binding ∧
      right.binding? = some other ∧ binding.Clashes other := by
  simp only [Leaf.Competes, binding?_eq_some_iff, Binding.clashes_iff, Metadata.overlaps_iff]
  constructor
  · intro competes
    rcases competes with ⟨name, name', rename, rename', binds, binds', overlap, clash⟩
    exact ⟨_, _, ⟨name, rename, binds, rfl⟩, ⟨name', rename', binds', rfl⟩, overlap, clash⟩
  · intro clashes
    rcases clashes with
      ⟨_, _, ⟨name, rename, binds, rfl⟩, ⟨name', rename', binds', rfl⟩, overlap, clash⟩
    exact ⟨name, name', rename, rename', binds, binds', overlap, clash⟩

theorem bindingConflict?_eq_none_iff {entries : List Entry} :
    bindingConflict? entries = none ↔
      ∀ left ∈ entries.map (·.leaf), ∀ right ∈ entries.map (·.leaf), ¬left.Competes right := by
  have visited : ∀ binding, binding ∈ (visit entries).filterMap binding? ↔
      ∃ entry ∈ entries, entry.binding? = some binding := by
    intro binding
    simp only [List.mem_filterMap, (visit_perm entries).mem_iff]
  rw [bindingConflict?, Binding.firstConflict?_eq_none_iff]
  simp only [List.not_mem_nil, false_implies, implies_true, true_and, List.forall_mem_map,
    competes_iff_exists_clashes]
  constructor
  · intro apart left inLeft right inRight competes
    rcases competes with ⟨binding, other, binds, binds', clashes⟩
    refine List.Pairwise.forall_of_forall_of_flip (fun one _ => one.not_clashes_self) ?_ apart
      ((visited binding).mpr ⟨left, inLeft, binds⟩) ((visited other).mpr ⟨right, inRight, binds'⟩)
      clashes
    exact apart.imp fun apart clashes => apart clashes.symm
  · intro apart
    apply List.pairwise_of_forall_mem_list
    intro other inside binding inside' clashes
    rcases (visited other).mp inside with ⟨right, inRight, binds'⟩
    rcases (visited binding).mp inside' with ⟨left, inLeft, binds⟩
    exact apart left inLeft right inRight ⟨binding, other, binds, binds', clashes⟩

theorem Collects.bindingConflict?_eq_none_iff {entries : List Entry} {forests : List Forest}
    (collects : Collects entries forests) :
    bindingConflict? entries = none ↔ ¬Forest.Competing forests := by
  simp only [Entry.bindingConflict?_eq_none_iff, collects.leaves, Forest.Competing, not_exists,
    not_and]

end Entry

namespace MergedSet

theorem merge_cases (forests : List Forest) (absorbByRename : Bool) :
    (∃ first second : Entry, first.leaf ∈ Forest.imports forests ∧
        second.leaf ∈ Forest.imports forests ∧ first.leaf.Contradicts second.leaf ∧
          merge forests absorbByRename = .error (Entry.metadataConflict first second)) ∨
      ∃ entries, Entry.Collects entries forests ∧
        ((∃ conflict, Entry.bindingConflict? entries = some conflict ∧
            merge forests absorbByRename = .error conflict) ∨
          Entry.bindingConflict? entries = none ∧ merge forests absorbByRename =
            .ok ⟨Tree.factor (Leaf.absorb absorbByRename (entries.map (·.leaf)))⟩) := by
  rcases Entry.ofForests_cases forests with ⟨entries, success, collects⟩ |
      ⟨first, second, inFirst, inSecond, contradicts, failed⟩
  · refine .inr ⟨entries, collects, ?_⟩
    cases found : Entry.bindingConflict? entries with
    | some conflict =>
        refine .inl ⟨conflict, rfl, ?_⟩
        simp only [merge, success, bind, Except.bind, found]
    | none =>
        refine .inr ⟨rfl, ?_⟩
        simp only [merge, success, bind, Except.bind, found]
  · refine .inl ⟨first, second, inFirst, inSecond, contradicts, ?_⟩
    rw [merge, failed]
    rfl

theorem exists_merge_eq_error_iff {forests : List Forest} {absorbByRename : Bool} :
    (∃ conflict, merge forests absorbByRename = .error conflict) ↔
      ∃ left ∈ Forest.imports forests, ∃ right ∈ Forest.imports forests, left.Conflicts right := by
  rcases merge_cases forests absorbByRename with
    ⟨first, second, inFirst, inSecond, contradicts, failed⟩ | ⟨entries, collects, ends⟩
  · exact ⟨fun _ => ⟨_, inFirst, _, inSecond, .inl contradicts⟩, fun _ => ⟨_, failed⟩⟩
  · have quiet := collects.bindingConflict?_eq_none_iff
    rcases ends with ⟨conflict, found, failed⟩ | ⟨none, success⟩
    · have competing : Forest.Competing forests := by
        apply Classical.byContradiction
        intro apart
        rw [quiet.mpr apart] at found
        cases found
      rcases competing with ⟨left, inLeft, right, inRight, competes⟩
      exact ⟨fun _ => ⟨left, inLeft, right, inRight, .inr competes⟩, fun _ => ⟨_, failed⟩⟩
    · constructor
      · intro fails
        rcases fails with ⟨conflict, failed⟩
        rw [success] at failed
        cases failed
      · intro conflicting
        rcases conflicting with ⟨left, inLeft, right, inRight, contradicts | competes⟩
        · exact absurd ⟨left, inLeft, right, inRight, contradicts⟩ collects.not_contradictory
        · exact absurd ⟨left, inLeft, right, inRight, competes⟩ (quiet.mp none)

/-- A merge reports a metadata conflict exactly if one import has different metadata; otherwise a
conflict of names exactly if two renames compete; and in all other cases it succeeds. -/
theorem merge_outcome_iff (forests : List Forest) (absorbByRename : Bool) :
    ((∃ path texts fragments,
        merge forests absorbByRename = .error (.metadata path texts fragments)) ↔
      Forest.Contradictory forests) ∧
    (((∃ path names fragments,
          merge forests absorbByRename = .error (.renames path names fragments)) ∨
        ∃ name paths fragments,
          merge forests absorbByRename = .error (.bindings name paths fragments)) ↔
      ¬Forest.Contradictory forests ∧ Forest.Competing forests) ∧
    ((∃ merged, merge forests absorbByRename = .ok merged) ↔
      ¬Forest.Contradictory forests ∧ ¬Forest.Competing forests) := by
  rcases merge_cases forests absorbByRename with
    ⟨first, second, inFirst, inSecond, contradicts, failed⟩ | ⟨entries, collects, ends⟩
  · have contradictory : Forest.Contradictory forests :=
      ⟨_, inFirst, _, inSecond, contradicts⟩
    simp [failed, Entry.metadataConflict, contradictory]
  · have consistent := collects.not_contradictory
    have quiet := collects.bindingConflict?_eq_none_iff
    rcases ends with ⟨conflict, found, failed⟩ | ⟨none, success⟩
    · have competing : Forest.Competing forests := by
        apply Classical.byContradiction
        intro apart
        rw [quiet.mpr apart] at found
        cases found
      rcases Entry.Binding.of_firstConflict?_eq_some found with
        ⟨path, names, fragments, rfl⟩ | ⟨name, paths, fragments, rfl⟩
      · simp [failed, consistent, competing]
      · simp [failed, consistent, competing]
    · simp [success, consistent, quiet.mp none]

end MergedSet

end ImportBlock
