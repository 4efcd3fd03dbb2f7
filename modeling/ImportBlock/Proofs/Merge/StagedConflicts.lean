import ImportBlock.Proofs.Merge.Stages
import Mathlib

/-! Conflicts in stages. The first stage of a merge forgets the imports that it finds redundant, and
with them the conflicts that only they are in. An import with a rename is never redundant, so no
conflict of names is lost; what can be lost is that a path without a rename has different metadata. -/

namespace ImportBlock

namespace MergedSet

variable {earlier later again : List Forest} {absorbByRename : Bool} {stage : MergedSet}

/-- An import of the earlier fragments that their merge does not hold and that no later fragment
repeats. -/
def Forgets (stage : MergedSet) (earlier later : List Forest) (leaf : Leaf) : Prop :=
  leaf ∈ Forest.imports earlier ∧ leaf ∉ stage.leaves ∧ leaf ∉ Forest.imports later

theorem mem_imports_toForest_cons (staged : merge earlier absorbByRename = .ok stage)
    {fragment : Int} (perm : again.Perm (stage.toForest fragment :: later)) {leaf : Leaf} :
    leaf ∈ Forest.imports again ↔
      leaf ∈ Forest.imports (earlier ++ later) ∧ ¬stage.Forgets earlier later leaf := by
  rw [Forest.mem_imports_of_perm perm, ← List.singleton_append, Forest.mem_imports_append,
    mem_imports_toForest staged, Forest.mem_imports_append, Forgets]
  have imported : leaf ∈ stage.leaves → leaf ∈ Forest.imports earlier :=
    mem_imports_of_mem_leaves staged
  tauto

theorem Forgets.rename_eq_none {leaf : Leaf} (forgets : stage.Forgets earlier later leaf)
    (staged : merge earlier absorbByRename = .ok stage) : leaf.rename = none := by
  cases renamed : leaf.rename with
  | none => rfl
  | some name =>
      have kept : leaf ∈ Leaf.absorb absorbByRename (Forest.imports earlier) :=
        Leaf.mem_absorb_of_rename renamed forgets.1
      exact absurd ((mem_leaves_iff_mem_absorb staged).mpr kept) forgets.2.1

/-- A conflict that one side of is forgotten is one of the metadata of a path without a rename. -/
theorem Forgets.of_conflicts {left right : Leaf}
    (forgets : stage.Forgets earlier later left ∨ stage.Forgets earlier later right)
    (staged : merge earlier absorbByRename = .ok stage) (conflicts : left.Conflicts right) :
    left.Contradicts right ∧ left.rename = none := by
  have unnamed : left.rename = none ∨ right.rename = none :=
    forgets.imp (fun forgotten => forgotten.rename_eq_none staged)
      fun forgotten => forgotten.rename_eq_none staged
  rcases conflicts with contradicts | competes
  · exact ⟨contradicts, unnamed.elim id contradicts.2.1.trans⟩
  · rcases competes with ⟨name, name', rename, rename', _⟩
    simp [rename, rename'] at unnamed

/-- Where the merge of a first stage comes into a second one as a fragment of its own, the second stage
fails exactly if a merge of all fragments at once does, unless every conflict is hidden: it is one of the
metadata of a path without a rename, and one of its sides was redundant in the first stage and is not
imported by a later fragment. -/
theorem exists_merge_toForest_append_error_iff (staged : merge earlier absorbByRename = .ok stage)
    {fragment : Int} (perm : again.Perm (stage.toForest fragment :: later)) :
    (∃ conflict, merge again absorbByRename = .error conflict) ↔
      (∃ conflict, merge (earlier ++ later) absorbByRename = .error conflict) ∧
        ¬∀ left ∈ Forest.imports (earlier ++ later), ∀ right ∈ Forest.imports (earlier ++ later),
          left.Conflicts right → left.Contradicts right ∧ left.rename = none ∧
            (stage.Forgets earlier later left ∨ stage.Forgets earlier later right) := by
  have visible : ∀ {leaf : Leaf}, leaf ∈ Forest.imports again ↔
      leaf ∈ Forest.imports (earlier ++ later) ∧ ¬stage.Forgets earlier later leaf :=
    mem_imports_toForest_cons staged perm
  rw [exists_merge_eq_error_iff, exists_merge_eq_error_iff]
  constructor
  · intro conflicting
    rcases conflicting with ⟨left, inLeft, right, inRight, conflicts⟩
    rw [visible] at inLeft inRight
    refine ⟨⟨left, inLeft.1, right, inRight.1, conflicts⟩, ?_⟩
    intro hidden
    exact (hidden left inLeft.1 right inRight.1 conflicts).2.2.elim inLeft.2 inRight.2
  · intro conflicting
    apply Classical.byContradiction
    intro calm
    apply conflicting.2
    intro left inLeft right inRight conflicts
    have forgotten : stage.Forgets earlier later left ∨ stage.Forgets earlier later right := by
      apply Classical.byContradiction
      intro kept
      rw [not_or] at kept
      exact calm ⟨left, visible.mpr ⟨inLeft, kept.1⟩, right, visible.mpr ⟨inRight, kept.2⟩, conflicts⟩
    have shape := Forgets.of_conflicts forgotten staged conflicts
    exact ⟨shape.1, shape.2, forgotten⟩

/-- A conflict of names outlasts the first stage. -/
theorem exists_merge_toForest_append_error_renamed :
    ∃ stage, merge [⟨0, [.leaf ⟨[.name "a", .name "b"], some "x", {}⟩]⟩,
        ⟨1, [.leaf ⟨[.name "a", .name "b"], none, {}⟩]⟩] true = .ok stage ∧
      ∃ conflict, merge [⟨2, [.leaf ⟨[.name "c", .name "d"], some "x", {}⟩]⟩, stage.toForest 7] true =
        .error conflict := by
  have staged : merge [⟨0, [.leaf ⟨[.name "a", .name "b"], some "x", {}⟩]⟩,
      ⟨1, [.leaf ⟨[.name "a", .name "b"], none, {}⟩]⟩] true =
        .ok ⟨[.leaf ⟨[.name "a", .name "b"], some "x", {}⟩]⟩ := by cbv
  have perm : List.Perm
      [⟨2, [.leaf ⟨[.name "c", .name "d"], some "x", {}⟩]⟩,
        MergedSet.toForest ⟨[.leaf ⟨[.name "a", .name "b"], some "x", {}⟩]⟩ 7]
      (MergedSet.toForest ⟨[.leaf ⟨[.name "a", .name "b"], some "x", {}⟩]⟩ 7 ::
        [⟨2, [.leaf ⟨[.name "c", .name "d"], some "x", {}⟩]⟩]) := List.Perm.swap _ _ []
  refine ⟨_, staged, ?_⟩
  apply (exists_merge_toForest_append_error_iff staged perm).mpr
  refine ⟨⟨.bindings "x" ["a::b", "c::d"] [0, 2], by cbv⟩, ?_⟩
  intro hidden
  have names := hidden ⟨[.name "a", .name "b"], some "x", {}⟩ (by decide)
    ⟨[.name "c", .name "d"], some "x", {}⟩ (by decide)
    (.inr ⟨"x", "x", rfl, rfl, by decide, by decide, .inl rfl, .inr ⟨rfl, by decide⟩⟩)
  exact absurd names.2.1 (by decide)

/-- A path that a glob makes redundant takes its metadata along: a later fragment may import it with
other metadata, although all fragments at once are in conflict. -/
theorem merge_toForest_append_hides_metadata :
    ¬∀ (earlier later : List Forest) (fragment : Int) (absorbByRename : Bool) (stage : MergedSet),
      (∀ leaf ∈ Forest.imports (earlier ++ later), leaf.path ≠ []) →
      merge earlier absorbByRename = .ok stage →
      (∃ conflict, merge (earlier ++ later) absorbByRename = .error conflict) →
        ∃ conflict, merge (stage.toForest fragment :: later) absorbByRename = .error conflict := by
  intro outlasts
  have fails := outlasts
    [⟨0, [.leaf ⟨[.name "a", .name "b"], none, {}⟩, .leaf ⟨[.name "a", .glob], none, {}⟩]⟩]
    [⟨1, [.leaf ⟨[.name "a", .name "b"], none, { visibility := "pub" }⟩]⟩] 7 true
    ⟨[.leaf ⟨[.name "a", .glob], none, {}⟩]⟩ (by decide) (by cbv)
    ⟨.metadata "a::b" ["<private>", "pub"] [0, 1], by cbv⟩
  have succeeds : merge
      [MergedSet.toForest ⟨[.leaf ⟨[.name "a", .glob], none, {}⟩]⟩ 7,
        ⟨1, [.leaf ⟨[.name "a", .name "b"], none, { visibility := "pub" }⟩]⟩] true =
      .ok ⟨[.group [.name "a"] [.leaf ⟨[.glob], none, {}⟩,
        .leaf ⟨[.name "b"], none, { visibility := "pub" }⟩]]⟩ := by cbv
  rcases fails with ⟨conflict, failed⟩
  rw [succeeds] at failed
  cases failed

end MergedSet

end ImportBlock
