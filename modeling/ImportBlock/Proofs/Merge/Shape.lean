import ImportBlock.Proofs.Merge.Survivors
import ImportBlock.Proofs.Tree.Canonical
import Mathlib

/-! How many trees of a merged set begin with one segment: one tree of longer paths, and few leaves of
one segment, since these must differ in their renames and renames that bind names compete. -/

namespace ImportBlock

theorem countP_le_one {α : Type} {test : α → Bool} {items : List α} (nodup : items.Nodup)
    (unique : ∀ one ∈ items, ∀ other ∈ items, test one = true → test other = true → one = other) :
    items.countP test ≤ 1 := by
  rw [List.countP_eq_length_filter]
  have nodup := nodup.filter test
  cases equal : items.filter test with
  | nil => exact Nat.zero_le 1
  | cons first rest =>
      have found : ∀ item ∈ first :: rest, item ∈ items ∧ test item = true := by
        intro item member
        rw [← equal] at member
        exact List.mem_filter.mp member
      have head := found first List.mem_cons_self
      have none : rest = [] := by
        apply List.eq_nil_iff_forall_not_mem.mpr
        intro item member
        have here := found item (List.mem_cons_of_mem first member)
        rw [equal] at nodup
        have same := unique first head.1 item here.1 head.2 here.2
        exact (List.nodup_cons.mp nodup).1 (same ▸ member)
      rw [none, List.length_singleton]

namespace Tree

/-- Whether a tree is a leaf of one segment with a rename of some kind. -/
def isShortWith (kind : Option String → Bool) : Tree → Bool
  | .leaf item => item.path.length = 1 && kind item.rename
  | .group _ _ => false

/-- Whether a tree begins with a segment and has a leaf with some metadata. -/
def holds (root : Segment) (metadata : Metadata) (tree : Tree) : Bool :=
  tree.root? = some root && tree.leaves.any (·.metadata = metadata)

theorem exists_factor_eq {leaves : List Leaf} (nodup : leaves.Nodup) :
    ∃ depth, factor leaves = (leaves.filter fun leaf => leaf.path.length ≤ 1).map .leaf ++
      (gather (fun leaf : Leaf => leaf.path.take 1)
        (leaves.filter fun leaf => 1 < leaf.path.length)).map fun (head, members) =>
          bucket depth head members := by
  rw [factor, eraseDups_eq_self nodup]
  cases deepest : depth leaves with
  | zero =>
      have empty : ∀ leaf ∈ leaves, leaf.path.length = 0 := fun leaf member =>
        Nat.le_zero.mp (deepest ▸ length_le_depth member)
      have short : (leaves.filter fun leaf => leaf.path.length ≤ 1) = leaves :=
        List.filter_eq_self.mpr fun leaf member => by simp [empty leaf member]
      have long : (leaves.filter fun leaf => 1 < leaf.path.length) = [] :=
        List.filter_eq_nil_iff.mpr fun leaf member => by simp [empty leaf member]
      refine ⟨0, ?_⟩
      rw [short, long, factorTo]
      exact (List.append_nil _).symm
  | succ depth => exact ⟨depth, factorTo_succ depth leaves⟩

section Buckets

variable {leaves members : List Leaf} {head : Path} {depth : Nat}

theorem isShortWith_bucket (gathered : (head, members) ∈
      gather (fun leaf : Leaf => leaf.path.take 1) (leaves.filter fun leaf => 1 < leaf.path.length))
    (kind : Option String → Bool) : (bucket depth head members).isShortWith kind = false := by
  rcases of_mem_buckets gathered with ⟨_, _, within⟩
  have perm := @leaves_bucket_perm depth head members (allLeaves_factorTo_perm depth)
    fun leaf member => (within leaf member).2.2
  cases equal : bucket depth head members with
  | group stem children => rfl
  | leaf item =>
      rw [equal] at perm
      have long := (within item (perm.mem_iff.mp (List.mem_singleton_self item))).2.1
      simp [isShortWith, Nat.ne_of_gt long]

/-- Trees of longer paths begin with different segments. -/
theorem countP_long_factor_le_one (nodup : leaves.Nodup) (root : Segment) :
    (factor leaves).countP (fun tree => !tree.isShortWith (fun _ => true) && tree.root? = some root) ≤
      1 := by
  rcases exists_factor_eq nodup with ⟨depth, equal⟩
  rw [equal, List.countP_append, List.countP_map, List.countP_map]
  have short : (leaves.filter fun leaf => leaf.path.length ≤ 1).countP
      ((fun tree : Tree => !tree.isShortWith (fun _ => true) && tree.root? = some root) ∘ .leaf) =
        0 := by
    apply List.countP_eq_zero.mpr
    intro leaf member
    have bound := of_decide_eq_true (List.mem_filter.mp member).2
    rcases leaf with ⟨_ | ⟨segment, _ | _⟩, rename, metadata⟩
    · simp [root?]
    · simp [isShortWith]
    · simp at bound
  rw [short, Nat.zero_add]
  apply countP_le_one
  · exact (nodup_map_fst_gather _ _).of_map
  · rintro ⟨head, members⟩ gathered ⟨head', members'⟩ gathered' found found'
    rcases of_mem_buckets gathered with ⟨⟨segment, rfl⟩, _, within⟩
    rcases of_mem_buckets gathered' with ⟨⟨segment', rfl⟩, _, within'⟩
    have root := of_decide_eq_true (Bool.and_eq_true_iff.mp found).2
    have root' := of_decide_eq_true (Bool.and_eq_true_iff.mp found').2
    rw [root?_bucket (List.cons_ne_nil _ _) fun leaf member => (within leaf member).2.2] at root
    rw [root?_bucket (List.cons_ne_nil _ _) fun leaf member => (within' leaf member).2.2] at root'
    cases root
    cases root'
    rw [(mem_gather.mp gathered).2, (mem_gather.mp gathered').2]

theorem countP_short_factor (nodup : leaves.Nodup) (root : Segment) (metadata : Metadata)
    (kind : Option String → Bool) :
    (factor leaves).countP (fun tree => tree.isShortWith kind && tree.holds root metadata) =
      leaves.countP fun leaf =>
        leaf.path = [root] && leaf.metadata = metadata && kind leaf.rename := by
  rcases exists_factor_eq nodup with ⟨depth, equal⟩
  rw [equal, List.countP_append, List.countP_map, List.countP_filter]
  have long : ((gather (fun leaf : Leaf => leaf.path.take 1)
      (leaves.filter fun leaf => 1 < leaf.path.length)).map fun (head, members) =>
        bucket depth head members).countP
          (fun tree => tree.isShortWith kind && tree.holds root metadata) = 0 := by
    apply List.countP_eq_zero.mpr
    intro tree member
    rcases List.mem_map.mp member with ⟨⟨head, members⟩, gathered, rfl⟩
    simp [isShortWith_bucket gathered]
  rw [long, Nat.add_zero]
  apply List.countP_congr
  rintro ⟨_ | ⟨segment, _ | _⟩, rename, metadata'⟩ _ <;>
    simp [isShortWith, holds, Tree.leaves, root?, and_comm]

end Buckets

end Tree

def Leaf.bindsName (rename : Option String) : Bool := rename.any (· ≠ "_")

theorem Leaf.bindsName_iff {rename : Option String} :
    bindsName rename = true ↔ ∃ name, rename = some name ∧ name ≠ "_" := by
  simp [bindsName, Option.any_eq_true]

namespace MergedSet

/-- What the trees of one segment and one metadata can be: a tree of longer paths, and leaves of one
segment, of which one has no rename, one is bound to nothing and one to a name. Where renamed imports
make plain ones redundant, the first and the last exclude each other. -/
structure HasShape (absorbByRename : Bool) (trees : List Tree) : Prop where
  long : trees.countP (fun tree => !tree.isShortWith fun _ => true) ≤ 1
  unbound : trees.countP (·.isShortWith (· = some "_")) ≤ 1
  plain : trees.countP (·.isShortWith (· = none)) ≤ 1
  named : trees.countP (·.isShortWith Leaf.bindsName) ≤ 1
  absorbed : absorbByRename = true →
    trees.countP (·.isShortWith fun rename => rename = none || Leaf.bindsName rename) ≤ 1

section Entries

variable {entries : List Entry} (separate : Entry.Separate entries)
  (quiet : Entry.bindingConflict? entries = none) {one other : Leaf}

include quiet in
theorem rename_eq_of_bindsName (inOne : one ∈ entries.map (·.leaf))
    (inOther : other ∈ entries.map (·.leaf)) (path : one.path = other.path)
    (metadata : one.metadata = other.metadata) (binds : Leaf.bindsName one.rename = true)
    (binds' : Leaf.bindsName other.rename = true) : one.rename = other.rename := by
  rcases Leaf.bindsName_iff.mp binds with ⟨name, rename, bound⟩
  rcases Leaf.bindsName_iff.mp binds' with ⟨name', rename', bound'⟩
  apply Classical.byContradiction
  intro different
  apply Entry.bindingConflict?_eq_none_iff.mp quiet one inOne other inOther
  refine ⟨name, name', rename, rename', bound, bound', ?_, ?_⟩
  · rw [metadata]
    exact .inr (.inr fun _ => Iff.rfl)
  · rw [rename, rename', Option.some.injEq] at different
    exact .inl ⟨congrArg _ path, different⟩

theorem not_bindsName_of_absorb {leaves : List Leaf} (inOne : one ∈ Leaf.absorb true leaves)
    (inOther : other ∈ Leaf.absorb true leaves) (path : one.path = other.path)
    (metadata : one.metadata = other.metadata) (plain : one.rename = none) :
    Leaf.bindsName other.rename = false := by
  rw [← Bool.not_eq_true]
  intro binds
  rcases Leaf.bindsName_iff.mp binds with ⟨name, rename, bound⟩
  apply (Leaf.mem_absorb.mp inOne).2.1
  exact ⟨rfl, other, (Leaf.mem_absorb.mp inOther).1, Leaf.isRenamedBy_iff.mpr
    ⟨plain, path.symm, metadata.symm, name, rename, bound⟩⟩

end Entries

/-- For one first segment and one metadata, a merged set has one tree of longer paths at most, and as
many leaves of one segment as their renames allow. -/
theorem hasShape_roots_of_merge {forests : List Forest} {absorbByRename : Bool} {merged : MergedSet}
    (success : merge forests absorbByRename = .ok merged) (root : Segment) (metadata : Metadata) :
    HasShape absorbByRename (merged.roots.filter (·.holds root metadata)) := by
  rcases exists_entries_of_merge success with ⟨entries, ⟨separate, _⟩, quiet, rfl⟩
  let kept := Leaf.absorb absorbByRename (entries.map (·.leaf))
  have sublist : kept.Sublist (entries.map (·.leaf)) := Leaf.absorb_sublist _ _
  have nodup : kept.Nodup := separate.nodup_map_leaf.sublist sublist
  have short : ∀ kind, (∀ one ∈ kept, ∀ other ∈ kept, one.path = other.path →
      one.metadata = other.metadata → kind one.rename = true → kind other.rename = true →
        one.rename = other.rename) →
      ((Tree.factor kept).filter (·.holds root metadata)).countP (·.isShortWith kind) ≤ 1 := by
    intro kind unique
    rw [List.countP_filter, Tree.countP_short_factor nodup]
    apply countP_le_one nodup
    intro one inOne other inOther found found'
    simp only [Bool.and_eq_true, decide_eq_true_eq] at found found'
    have path := found.1.1.trans found'.1.1.symm
    exact separate.eq_of_import (sublist.mem inOne) (sublist.mem inOther) path
      (unique one inOne other inOther path (found.1.2.trans found'.1.2.symm) found.2 found'.2)
  have named : ∀ one ∈ kept, ∀ other ∈ kept, one.path = other.path →
      one.metadata = other.metadata → Leaf.bindsName one.rename = true →
        Leaf.bindsName other.rename = true → one.rename = other.rename :=
    fun _ inOne _ inOther =>
      rename_eq_of_bindsName quiet (sublist.mem inOne) (sublist.mem inOther)
  refine ⟨?_, short _ ?_, short _ ?_, short _ named, ?_⟩
  · rw [List.countP_filter]
    refine Nat.le_trans (List.countP_mono_left ?_) (Tree.countP_long_factor_le_one nodup root)
    intro tree _ found
    simp only [Tree.holds, Bool.and_eq_true] at found ⊢
    exact ⟨found.1, found.2.1⟩
  · intro one _ other _ _ _ unbound unbound'
    rw [of_decide_eq_true unbound, of_decide_eq_true unbound']
  · intro one _ other _ _ _ plain plain'
    rw [of_decide_eq_true plain, of_decide_eq_true plain']
  · rintro rfl
    apply short
    intro one inOne other inOther path metadata kind kind'
    rw [Bool.or_eq_true, decide_eq_true_eq] at kind kind'
    rcases kind with plain | binds
    · rcases kind' with plain' | binds'
      · rw [plain, plain']
      · rw [not_bindsName_of_absorb inOne inOther path metadata plain] at binds'
        cases binds'
    · rcases kind' with plain' | binds'
      · rw [not_bindsName_of_absorb inOther inOne path.symm metadata.symm plain'] at binds
        cases binds
      · exact named one inOne other inOther path metadata binds binds'

theorem hasShape_roots_of_merge_renamed : ∃ merged,
    merge [⟨0, [.leaf ⟨[.name "a"], none, {}⟩, .leaf ⟨[.name "a"], some "b", {}⟩,
      .leaf ⟨[.name "a", .glob], none, {}⟩]⟩] true = .ok merged ∧
    HasShape true (merged.roots.filter (·.holds (.name "a") {})) := by
  have success : merge [⟨0, [.leaf ⟨[.name "a"], none, {}⟩, .leaf ⟨[.name "a"], some "b", {}⟩,
      .leaf ⟨[.name "a", .glob], none, {}⟩]⟩] true =
        .ok ⟨[.leaf ⟨[.name "a"], some "b", {}⟩, .leaf ⟨[.name "a", .glob], none, {}⟩]⟩ := by cbv
  exact ⟨_, success, hasShape_roots_of_merge success (.name "a") {}⟩

/-- A leaf that is bound to nothing stays beside the plain one, whatever becomes of the latter. -/
theorem exists_merge_three_roots : ∃ forest merged,
    Forest.ofText "use a; use a as _; use a::b;" = .ok forest ∧
    (∀ absorbByRename, merge [forest] absorbByRename = .ok merged) ∧
    2 < (merged.roots.filter (·.holds (.name "a") {})).length := by
  have read : Forest.ofText "use a; use a as _; use a::b;" = .ok ⟨0, [.leaf ⟨[.name "a"], none, {}⟩,
      .leaf ⟨[.name "a"], some "_", {}⟩, .leaf ⟨[.name "a", .name "b"], none, {}⟩]⟩ := by cbv
  refine ⟨_, ⟨[.leaf ⟨[.name "a"], none, {}⟩, .leaf ⟨[.name "a"], some "_", {}⟩,
    .leaf ⟨[.name "a", .name "b"], none, {}⟩]⟩, read, ?_, by decide⟩
  intro absorbByRename
  cases absorbByRename <;> cbv

end MergedSet

end ImportBlock
