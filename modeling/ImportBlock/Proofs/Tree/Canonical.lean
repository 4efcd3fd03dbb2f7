import ImportBlock.Proofs.Tree.Printer
import Mathlib

/-! Canonical sets of trees: no group has an only child, and different trees begin with different
segments, leaves of one segment apart. Factoring gives canonical sets. A canonical set is determined by
its leaves, so factoring these gives it back. -/

namespace ImportBlock.Tree

/-! ## Canonical sets -/

def IsShort : Tree → Prop
  | .leaf item => item.path.length = 1
  | .group _ _ => False

/-- Whether different trees begin with different segments, unless one of them is short. -/
def Apart (trees : List Tree) : Prop :=
  ∀ left ∈ trees, ∀ right ∈ trees, ¬left.same right = true → ¬left.IsShort → ¬right.IsShort →
    left.root? ≠ right.root?

/-- Whether a tree has nothing empty in it, and each of its groups has two different children at least,
which stand apart. -/
inductive Factored : Tree → Prop
  | leaf {item : Leaf} (path : item.path ≠ []) : Factored (.leaf item)
  | group {stem : Path} {children : List Tree} (stemNonempty : stem ≠ [])
      (several : ∃ left ∈ children, ∃ right ∈ children, ¬left.same right = true)
      (apart : Apart children) (factored : ∀ child ∈ children, Factored child) :
      Factored (.group stem children)

structure Canonical (trees : List Tree) : Prop where
  factored : ∀ tree ∈ trees, tree.Factored
  apart : Apart trees

theorem Factored.regular {tree : Tree} (factored : tree.Factored) : tree.Regular := by
  induction factored with
  | leaf path => exact .leaf path
  | group stemNonempty several _ _ induction =>
      rcases several with ⟨child, member, _⟩
      exact .group stemNonempty (List.ne_nil_of_mem member) induction

theorem Regular.path_ne_nil {tree : Tree} (regular : tree.Regular) :
    ∀ leaf ∈ tree.leaves, leaf.path ≠ [] := by
  rcases regular.exists_root with ⟨root, _, starts⟩
  intro leaf member empty
  have start := starts leaf member
  rw [empty] at start
  cases start

theorem Regular.leaves_ne_nil {tree : Tree} (regular : tree.Regular) : tree.leaves ≠ [] := by
  rcases regular.exists_leaf with ⟨leaf, member, _⟩
  exact List.ne_nil_of_mem member

theorem Factored.short_cases {tree : Tree} (factored : tree.Factored) :
    (∃ item, tree = .leaf item ∧ item.path.length = 1) ∨
      ¬tree.IsShort ∧ ∀ leaf ∈ tree.leaves, 1 < leaf.path.length := by
  cases factored with
  | @leaf item path =>
      have positive := List.length_pos_of_ne_nil path
      by_cases short : item.path.length = 1
      · exact .inl ⟨item, rfl, short⟩
      · right
        refine ⟨short, ?_⟩
        intro leaf member
        rw [List.mem_singleton.mp member]
        omega
  | @group stem children stemNonempty _ _ factored =>
      right
      refine ⟨id, ?_⟩
      intro leaf member
      rcases mem_leaves_group.mp member with ⟨child, inside, inner, lies, rfl⟩
      have front := List.length_pos_of_ne_nil stemNonempty
      have back := List.length_pos_of_ne_nil
        ((factored child inside).regular.path_ne_nil inner lies)
      rw [Leaf.under, List.length_append]
      omega

theorem under_injective (stem : Path) : Function.Injective (Leaf.under stem) := by
  intro left right equal
  cases left
  cases right
  simpa [Leaf.under] using equal

theorem mem_leaves_of_same : ∀ {left right : Tree}, left.same right = true →
    ∀ leaf ∈ left.leaves, leaf ∈ right.leaves
  | .leaf item, .leaf item', equal, inner, member => by
      have items : item = item' := by simpa [same] using equal
      rwa [← items]
  | .leaf _, .group _ _, equal, _, _ => by simp [same] at equal
  | .group _ _, .leaf _, equal, _, _ => by simp [same] at equal
  | .group stem children, .group stem' children', equal, _, member => by
      rw [same_group] at equal
      rcases mem_leaves_group.mp member with ⟨child, inside, inner, lies, rfl⟩
      rcases equal.2.1 child inside with ⟨child', inside', equal'⟩
      rw [equal.1, mem_leaves_group]
      exact ⟨child', inside', inner, mem_leaves_of_same equal' inner lies, rfl⟩

/-- A group has two different leaves at least. -/
theorem Factored.exists_ne {tree : Tree} (factored : tree.Factored) :
    (∃ item, tree = .leaf item) ∨ ∃ leaf ∈ tree.leaves, ∃ other ∈ tree.leaves, leaf ≠ other := by
  induction factored with
  | leaf _ => exact .inl ⟨_, rfl⟩
  | @group stem children _ several _ _ induction =>
      right
      -- Two different leaves below a child, or two children that are different leaves.
      have inner : ∃ leaf ∈ allLeaves children, ∃ other ∈ allLeaves children, leaf ≠ other := by
        have deeper : ∀ child ∈ children, (∃ leaf ∈ child.leaves, ∃ other ∈ child.leaves,
            leaf ≠ other) → ∃ leaf ∈ allLeaves children, ∃ other ∈ allLeaves children,
              leaf ≠ other := by
          intro child member found
          rcases found with ⟨leaf, inLeaf, other, inOther, different⟩
          exact ⟨leaf, mem_allLeaves.mpr ⟨child, member, inLeaf⟩, other,
            mem_allLeaves.mpr ⟨child, member, inOther⟩, different⟩
        rcases several with ⟨left, inLeft, right, inRight, different⟩
        rcases induction left inLeft with ⟨item, rfl⟩ | found
        · rcases induction right inRight with ⟨item', rfl⟩ | found
          · refine ⟨item, mem_allLeaves.mpr ⟨_, inLeft, List.mem_singleton_self _⟩, item',
              mem_allLeaves.mpr ⟨_, inRight, List.mem_singleton_self _⟩, ?_⟩
            intro equal
            rw [equal] at different
            exact different (same_refl _)
          · exact deeper right inRight found
        · exact deeper left inLeft found
      rcases inner with ⟨leaf, inLeaf, other, inOther, different⟩
      exact ⟨leaf.under stem, List.mem_map_of_mem inLeaf, other.under stem,
        List.mem_map_of_mem inOther, fun equal => different (under_injective stem equal)⟩

namespace Canonical

variable {trees left right : List Tree}

theorem not_isShort_of_long (canonical : Canonical trees) {tree : Tree} (member : tree ∈ trees)
    {leaf : Leaf} (inside : leaf ∈ tree.leaves) (long : 1 < leaf.path.length) :
    ¬tree.IsShort := by
  rcases (canonical.factored tree member).short_cases with ⟨item, rfl, length⟩ | ⟨tall, _⟩
  · rw [List.mem_singleton.mp inside] at long
    omega
  · exact tall

theorem same_of_head (canonical : Canonical trees) {one two : Tree} (inOne : one ∈ trees)
    (inTwo : two ∈ trees) {leaf other : Leaf} (inside : leaf ∈ one.leaves)
    (inside' : other ∈ two.leaves) (long : 1 < leaf.path.length) (long' : 1 < other.path.length)
    (head : leaf.path.head? = other.path.head?) : one.same two = true := by
  apply Classical.byContradiction
  intro different
  apply canonical.apart one inOne two inTwo different
    (canonical.not_isShort_of_long inOne inside long)
    (canonical.not_isShort_of_long inTwo inside' long')
  rcases (canonical.factored one inOne).regular.exists_root with ⟨root, found, starts⟩
  rcases (canonical.factored two inTwo).regular.exists_root with ⟨root', found', starts'⟩
  rw [found, found', ← starts leaf inside, head, starts' other inside']

theorem same_of_mem (canonical : Canonical trees) {one two : Tree} (inOne : one ∈ trees)
    (inTwo : two ∈ trees) {leaf : Leaf} (inside : leaf ∈ one.leaves)
    (inside' : leaf ∈ two.leaves) : one.same two = true := by
  by_cases long : 1 < leaf.path.length
  · exact canonical.same_of_head inOne inTwo inside inside' long long rfl
  · have only : ∀ tree ∈ trees, leaf ∈ tree.leaves → tree = .leaf leaf := by
      intro tree member lies
      rcases (canonical.factored tree member).short_cases with ⟨item, rfl, _⟩ | ⟨_, tall⟩
      · rw [List.mem_singleton.mp lies]
      · exact absurd (tall leaf lies) long
    rw [only one inOne inside, only two inTwo inside']
    exact same_refl _

theorem not_forall_head (canonical : Canonical trees)
    (several : ∃ one ∈ trees, ∃ two ∈ trees, ¬one.same two = true) (segment : Segment) :
    ¬∀ leaf ∈ allLeaves trees, leaf.path.head? = some segment ∧ 1 < leaf.path.length := by
  intro alike
  rcases several with ⟨one, inOne, two, inTwo, different⟩
  rcases (canonical.factored one inOne).regular.exists_leaf with ⟨leaf, inside, _⟩
  rcases (canonical.factored two inTwo).regular.exists_leaf with ⟨other, inside', _⟩
  have starts := alike leaf (mem_allLeaves.mpr ⟨one, inOne, inside⟩)
  have starts' := alike other (mem_allLeaves.mpr ⟨two, inTwo, inside'⟩)
  exact different (canonical.same_of_head inOne inTwo inside inside' starts.2 starts'.2
    (starts.1.trans starts'.1.symm))

theorem not_mem_leaves_group (canonical : Canonical left) (canonical' : Canonical right)
    (equal : ∀ leaf, leaf ∈ allLeaves left ↔ leaf ∈ allLeaves right) {item : Leaf}
    (member : .leaf item ∈ left) {stem : Path} {children : List Tree}
    (member' : .group stem children ∈ right) : item ∉ (group stem children).leaves := by
  intro inside
  have factored := canonical'.factored _ member'
  rcases factored.short_cases with ⟨_, isLeaf, _⟩ | ⟨_, long⟩
  · cases isLeaf
  rcases factored.exists_ne with ⟨_, isLeaf⟩ | several
  · cases isLeaf
  have another : ∃ other ∈ (group stem children).leaves, other ≠ item := by
    rcases several with ⟨one, inOne, two, inTwo, different⟩
    by_cases first : one = item
    · exact ⟨two, inTwo, fun second => different (first.trans second.symm)⟩
    · exact ⟨one, inOne, first⟩
  rcases another with ⟨other, inOther, different⟩
  rcases mem_allLeaves.mp ((equal other).mpr (mem_allLeaves.mpr ⟨_, member', inOther⟩)) with
    ⟨tree, inTree, lies⟩
  rcases factored.regular.exists_root with ⟨root, _, starts⟩
  have alike := canonical.same_of_head inTree member lies (List.mem_singleton_self item)
    (long other inOther) (long item inside) ((starts other inOther).trans (starts item inside).symm)
  exact different (List.mem_singleton.mp (mem_leaves_of_same alike other lies))

theorem mem_leaves_of_mem (canonical : Canonical left) (canonical' : Canonical right)
    (equal : ∀ leaf, leaf ∈ allLeaves left ↔ leaf ∈ allLeaves right) {one two : Tree}
    (inOne : one ∈ left) (inTwo : two ∈ right) {leaf : Leaf} (inside : leaf ∈ one.leaves)
    (inside' : leaf ∈ two.leaves) (long : 1 < leaf.path.length) :
    ∀ other ∈ one.leaves, other ∈ two.leaves := by
  intro other member
  rcases (canonical.factored one inOne).short_cases with ⟨item, rfl, length⟩ | ⟨_, tall⟩
  · rw [List.mem_singleton.mp inside] at long
    omega
  rcases mem_allLeaves.mp ((equal other).mp (mem_allLeaves.mpr ⟨one, inOne, member⟩)) with
    ⟨tree, inTree, lies⟩
  rcases (canonical.factored one inOne).regular.exists_root with ⟨root, _, starts⟩
  have alike := canonical'.same_of_head inTree inTwo lies inside' (tall other member) long
    ((starts other member).trans (starts leaf inside).symm)
  exact mem_leaves_of_same alike other lies

end Canonical

/-! ## Canonical sets of the same leaves -/

theorem Factored.several {stem : Path} {children : List Tree}
    (factored : (Tree.group stem children).Factored) :
    ∃ left ∈ children, ∃ right ∈ children, ¬left.same right = true := by
  cases factored with
  | group _ several _ _ => exact several

theorem Factored.children {stem : Path} {children : List Tree}
    (factored : (Tree.group stem children).Factored) : Canonical children := by
  cases factored with
  | group _ _ apart factored => exact ⟨factored, apart⟩

theorem Factored.stem_eq_of_prefix {stem : Path} {children : List Tree}
    (factored : (Tree.group stem children).Factored) {longer : Path} (begins : stem <+: longer)
    (common : ∀ leaf ∈ (Tree.group stem children).leaves, ∃ behind, behind ≠ [] ∧
      leaf.path = longer ++ behind) : longer = stem := by
  rcases begins with ⟨rest, rfl⟩
  cases rest with
  | nil => rw [List.append_nil]
  | cons segment rest =>
      exfalso
      apply factored.children.not_forall_head factored.several segment
      intro leaf member
      rcases common (leaf.under stem) (List.mem_map_of_mem member) with ⟨behind, some, equal⟩
      rw [Leaf.under, List.append_assoc, List.append_cancel_left_eq] at equal
      have positive := List.length_pos_of_ne_nil some
      rw [equal, List.cons_append, List.length_cons, List.length_append]
      exact ⟨rfl, by omega⟩

theorem Factored.exists_behind {stem : Path} {children : List Tree}
    (factored : (Tree.group stem children).Factored) :
    ∀ leaf ∈ (Tree.group stem children).leaves, ∃ behind, behind ≠ [] ∧
      leaf.path = stem ++ behind := by
  intro leaf member
  rcases mem_leaves_group.mp member with ⟨child, inside, inner, lies, rfl⟩
  exact ⟨inner.path, (factored.children.factored child inside).regular.path_ne_nil inner lies, rfl⟩

theorem Factored.stem_eq {stem stem' : Path} {children children' : List Tree}
    (factored : (Tree.group stem children).Factored) (factored' : (Tree.group stem' children').Factored)
    (equal : ∀ leaf, leaf ∈ (Tree.group stem children).leaves ↔ leaf ∈ (Tree.group stem' children').leaves) :
    stem = stem' := by
  rcases factored.regular.exists_leaf with ⟨leaf, member, _⟩
  rcases factored.exists_behind leaf member with ⟨behind, _, path⟩
  rcases factored'.exists_behind leaf ((equal leaf).mp member) with ⟨behind', _, path'⟩
  have starts : stem <+: leaf.path := ⟨behind, path.symm⟩
  have starts' : stem' <+: leaf.path := ⟨behind', path'.symm⟩
  rcases Nat.le_total stem.length stem'.length with shorter | longer
  · have begins := List.prefix_of_prefix_length_le starts starts' shorter
    exact (factored.stem_eq_of_prefix begins fun other inside =>
      factored'.exists_behind other ((equal other).mp inside)).symm
  · have begins := List.prefix_of_prefix_length_le starts' starts longer
    exact factored'.stem_eq_of_prefix begins fun other inside =>
      factored.exists_behind other ((equal other).mpr inside)

/-- Each tree of a canonical set has its equal in any other canonical set of the same leaves. -/
theorem Factored.exists_same {tree : Tree} (factored : tree.Factored) :
    ∀ {left right : List Tree}, Canonical left → Canonical right →
      (∀ leaf, leaf ∈ allLeaves left ↔ leaf ∈ allLeaves right) → tree ∈ left →
        ∃ other ∈ right, tree.same other = true := by
  induction factored with
  | @leaf item _ =>
      intro left right canonical canonical' equal member
      have here := mem_allLeaves.mpr ⟨_, member, List.mem_singleton_self item⟩
      rcases mem_allLeaves.mp ((equal item).mp here) with ⟨other, inOther, lies⟩
      cases other with
      | leaf item' =>
          rw [List.mem_singleton.mp lies]
          exact ⟨_, inOther, same_refl _⟩
      | group stem children =>
          exact absurd lies (canonical.not_mem_leaves_group canonical' equal member inOther)
  | @group stem children stemNonempty several apart inner induction =>
      intro left right canonical canonical' equal member
      have factored := canonical.factored _ member
      rcases factored.regular.exists_leaf with ⟨leaf, inside, _⟩
      have here := mem_allLeaves.mpr ⟨_, member, inside⟩
      rcases mem_allLeaves.mp ((equal leaf).mp here) with ⟨other, inOther, lies⟩
      cases other with
      | leaf item =>
          rw [List.mem_singleton.mp lies] at inside
          exact absurd inside (canonical'.not_mem_leaves_group canonical
            (fun leaf => (equal leaf).symm) inOther member)
      | group stem' children' =>
          have factored' := canonical'.factored _ inOther
          rcases factored.short_cases with ⟨_, isLeaf, _⟩ | ⟨_, long⟩
          · cases isLeaf
          have leaves : ∀ leaf, leaf ∈ (Tree.group stem children).leaves ↔
              leaf ∈ (Tree.group stem' children').leaves := fun other =>
            ⟨canonical.mem_leaves_of_mem canonical' equal member inOther inside lies
                (long leaf inside) other,
              canonical'.mem_leaves_of_mem canonical (fun leaf => (equal leaf).symm) inOther member
                lies inside (long leaf inside) other⟩
          obtain rfl := factored.stem_eq factored' leaves
          have childLeaves : ∀ leaf, leaf ∈ allLeaves children ↔ leaf ∈ allLeaves children' := by
            intro leaf
            have both := leaves (leaf.under stem)
            simpa only [Tree.leaves, List.mem_map_of_injective (under_injective stem)] using both
          refine ⟨_, inOther, same_group.mpr ⟨rfl, ?_, ?_⟩⟩
          · intro child inChild
            exact induction child inChild factored.children factored'.children childLeaves inChild
          · -- A child there shares a leaf with the equal of a child here, so it is this one.
            intro child' inChild'
            rcases (factored'.children.factored child' inChild').regular.exists_leaf with
              ⟨inner, lies', _⟩
            have there := mem_allLeaves.mpr ⟨child', inChild', lies'⟩
            rcases mem_allLeaves.mp ((childLeaves inner).mpr there) with ⟨child, inChild, inside'⟩
            rcases induction child inChild factored.children factored'.children childLeaves
              inChild with ⟨other, inOther', alike⟩
            have shared := mem_leaves_of_same alike inner inside'
            exact ⟨child, inChild,
              same_trans alike (factored'.children.same_of_mem inOther' inChild' shared lies')⟩

/-- A canonical set is determined by its leaves. -/
theorem Canonical.sameSet {left right : List Tree} (canonical : Canonical left)
    (canonical' : Canonical right)
    (equal : ∀ leaf, leaf ∈ allLeaves left ↔ leaf ∈ allLeaves right) :
    Tree.sameSet left right = true := by
  rw [sameSet_eq_true]
  constructor
  · intro tree member
    exact (canonical.factored tree member).exists_same canonical canonical' equal member
  · intro other member
    rcases (canonical'.factored other member).exists_same canonical' canonical
      (fun leaf => (equal leaf).symm) member with ⟨tree, inside, alike⟩
    exact ⟨tree, inside, same_symm alike⟩

/-! ## Factoring -/

theorem pairwise_not_same {trees : List Tree} (nodup : (allLeaves trees).Nodup)
    (some : ∀ tree ∈ trees, tree.leaves ≠ []) :
    trees.Pairwise fun left right => ¬left.same right = true := by
  induction trees with
  | nil => exact .nil
  | cons tree rest induction =>
      rw [allLeaves, List.nodup_append'] at nodup
      rw [List.pairwise_cons]
      refine ⟨?_, induction nodup.2.1 fun other member => some other (List.mem_cons_of_mem _ member)⟩
      intro other member alike
      rcases List.exists_mem_of_ne_nil _ (some tree List.mem_cons_self) with ⟨leaf, inside⟩
      have lies := mem_leaves_of_same alike leaf inside
      exact nodup.2.2 inside (mem_allLeaves.mpr ⟨other, member, lies⟩)

/-- Under a stem, the only tree of a canonical set takes the stem into its own path, and several trees
become its children. -/
theorem factored_underStem {stem : Path} (nonempty : stem ≠ []) {children : List Tree}
    (canonical : Canonical children) (some : children ≠ []) (nodup : (allLeaves children).Nodup) :
    (underStem stem children).Factored := by
  unfold underStem
  split
  · apply Factored.leaf
    simp [Leaf.under, nonempty]
  · next inner grandchildren =>
      have only := canonical.factored _ List.mem_cons_self
      exact .group (by simp [nonempty]) only.several only.children.apart only.children.factored
  · next noLeaf noGroup =>
      refine .group nonempty ?_ canonical.apart canonical.factored
      have different := pairwise_not_same nodup fun tree member =>
        (canonical.factored tree member).regular.leaves_ne_nil
      cases children with
      | nil => exact absurd rfl some
      | cons first rest =>
          cases rest with
          | nil =>
              cases first with
              | leaf only => exact absurd rfl (noLeaf only)
              | group inner grandchildren => exact absurd rfl (noGroup inner grandchildren)
          | cons second others =>
              have apart := (List.pairwise_cons.mp different).1 second List.mem_cons_self
              exact ⟨first, List.mem_cons_self, second,
                List.mem_cons_of_mem _ List.mem_cons_self, apart⟩

theorem root?_underStem {stem : Path} (nonempty : stem ≠ []) (children : List Tree) :
    (underStem stem children).root? = stem.head? := by
  rcases List.exists_cons_of_ne_nil nonempty with ⟨segment, rest, rfl⟩
  unfold underStem
  split <;> rfl

theorem root?_bucket {depth : Nat} {head : Path} (nonempty : head ≠ []) {members : List Leaf}
    (within : ∀ leaf ∈ members, leaf.path.take 1 = head) :
    (bucket depth head members).root? = head.head? := by
  unfold bucket
  split
  · next only =>
      rw [← within only List.mem_cons_self, root?]
      cases only.path <;> rfl
  · exact root?_underStem nonempty _

section Buckets

variable {leaves members : List Leaf} {head : Path}

theorem of_mem_buckets (gathered : (head, members) ∈ gather (fun leaf : Leaf => leaf.path.take 1)
      (leaves.filter fun leaf => 1 < leaf.path.length)) :
    (∃ segment, head = [segment]) ∧ members ≠ [] ∧
      ∀ leaf ∈ members, leaf ∈ leaves ∧ 1 < leaf.path.length ∧ leaf.path.take 1 = head := by
  rcases of_mem_gather gathered with ⟨nonempty, within⟩
  have each : ∀ leaf ∈ members, leaf ∈ leaves ∧ 1 < leaf.path.length ∧
      leaf.path.take 1 = head := by
    intro leaf member
    have found := within leaf member
    have long := List.mem_filter.mp found.1
    exact ⟨long.1, of_decide_eq_true long.2, found.2⟩
  refine ⟨?_, nonempty, each⟩
  rcases List.exists_mem_of_ne_nil members nonempty with ⟨leaf, member⟩
  have found := each leaf member
  have length := congrArg List.length found.2.2
  rw [List.length_take, Nat.min_eq_left (Nat.le_of_lt found.2.1)] at length
  exact List.length_eq_one_iff.mp length.symm

theorem nodup_tails (nodup : leaves.Nodup)
    (gathered : (head, members) ∈ gather (fun leaf : Leaf => leaf.path.take 1)
      (leaves.filter fun leaf => 1 < leaf.path.length)) : (tails members).Nodup := by
  have within := (of_mem_buckets gathered).2.2
  have once : members.Nodup := by
    rw [(mem_gather.mp gathered).2]
    exact (nodup.filter _).filter _
  rw [← map_under_tails fun leaf member => (within leaf member).2.2] at once
  exact once.of_map

theorem factored_bucket {depth : Nat} (nodup : leaves.Nodup)
    (gathered : (head, members) ∈ gather (fun leaf : Leaf => leaf.path.take 1)
      (leaves.filter fun leaf => 1 < leaf.path.length))
    (inner : Canonical (factorTo depth (tails members))) :
    (bucket depth head members).Factored := by
  rcases of_mem_buckets gathered with ⟨⟨segment, rfl⟩, nonempty, within⟩
  unfold bucket
  split
  · next only =>
      have long := (within only List.mem_cons_self).2.1
      exact .leaf (List.ne_nil_of_length_pos (by omega))
  · apply factored_underStem (List.cons_ne_nil _ _) inner
    · exact factorTo_ne_nil depth (by simpa [tails] using nonempty)
    · have perm := allLeaves_factorTo_perm depth (tails members)
      exact perm.nodup_iff.mpr (nodup_tails nodup gathered)

theorem apart_buckets (depth : Nat) : Apart ((gather (fun leaf : Leaf => leaf.path.take 1)
    (leaves.filter fun leaf => 1 < leaf.path.length)).map fun (head, members) =>
      bucket depth head members) := by
  intro left inLeft right inRight different _ _ roots
  rcases List.mem_map.mp inLeft with ⟨⟨head, members⟩, gathered, rfl⟩
  rcases List.mem_map.mp inRight with ⟨⟨head', members'⟩, gathered', rfl⟩
  rcases of_mem_buckets gathered with ⟨⟨segment, rfl⟩, _, within⟩
  rcases of_mem_buckets gathered' with ⟨⟨segment', rfl⟩, _, within'⟩
  dsimp only at different roots
  rw [root?_bucket (List.cons_ne_nil _ _) fun leaf member => (within leaf member).2.2,
    root?_bucket (List.cons_ne_nil _ _) fun leaf member => (within' leaf member).2.2,
    List.head?_cons, List.head?_cons, Option.some.injEq] at roots
  subst roots
  apply different
  rw [(mem_gather.mp gathered).2, (mem_gather.mp gathered').2]
  exact same_refl _

theorem Apart.append_short {short long : List Tree} (each : ∀ tree ∈ short, tree.IsShort)
    (apart : Apart long) : Apart (short ++ long) := by
  intro left inLeft right inRight different tall tall'
  have inLong := (List.mem_append.mp inLeft).resolve_left fun member => tall (each left member)
  have inLong' := (List.mem_append.mp inRight).resolve_left fun member => tall' (each right member)
  exact apart left inLong right inLong' different tall tall'

/-- Leaves that are all different are factored into a canonical set. -/
theorem canonical_factorTo (depth : Nat) (nodup : leaves.Nodup)
    (paths : ∀ leaf ∈ leaves, leaf.path ≠ []) (deep : ∀ leaf ∈ leaves, leaf.path.length ≤ depth) :
    Canonical (factorTo depth leaves) := by
  induction depth generalizing leaves with
  | zero =>
      have none : leaves = [] := by
        apply List.eq_nil_iff_forall_not_mem.mpr
        intro leaf member
        exact paths leaf member (List.eq_nil_of_length_eq_zero (Nat.le_zero.mp (deep leaf member)))
      subst none
      exact ⟨fun _ member => absurd member List.not_mem_nil,
        fun _ member => absurd member List.not_mem_nil⟩
  | succ depth induction =>
      rw [factorTo_succ]
      constructor
      · intro tree member
        rcases List.mem_append.mp member with short | long
        · rcases List.mem_map.mp short with ⟨leaf, inside, rfl⟩
          exact .leaf (paths leaf (List.mem_filter.mp inside).1)
        · rcases List.mem_map.mp long with ⟨⟨head, members⟩, gathered, rfl⟩
          have within := (of_mem_buckets gathered).2.2
          apply factored_bucket nodup gathered
          apply induction (nodup_tails nodup gathered)
          · intro tail inside
            rcases List.mem_map.mp inside with ⟨leaf, lies, rfl⟩
            have long := (within leaf lies).2.1
            exact List.ne_nil_of_length_pos (by rw [List.length_tail]; omega)
          · intro tail inside
            rcases List.mem_map.mp inside with ⟨leaf, lies, rfl⟩
            have bound := deep leaf (within leaf lies).1
            rw [List.length_tail]
            omega
      · apply Apart.append_short _ (apart_buckets depth)
        intro tree member
        rcases List.mem_map.mp member with ⟨leaf, inside, rfl⟩
        have found := List.mem_filter.mp inside
        have short := of_decide_eq_true found.2
        have positive := List.length_pos_of_ne_nil (paths leaf found.1)
        rw [IsShort]
        omega

theorem canonical_factor (paths : ∀ leaf ∈ leaves, leaf.path ≠ []) : Canonical (factor leaves) := by
  apply canonical_factorTo _ (nodup_eraseDups leaves)
  · intro leaf member
    exact paths leaf (List.mem_eraseDups.mp member)
  · intro leaf member
    exact length_le_depth member

end Buckets

theorem sameSet_factor {leaves : List Leaf} {trees : List Tree} (canonical : Canonical trees)
    (same : ∀ leaf, leaf ∈ leaves ↔ leaf ∈ allLeaves trees) :
    sameSet (factor leaves) trees = true := by
  have paths : ∀ leaf ∈ leaves, leaf.path ≠ [] := by
    intro leaf member
    rcases mem_allLeaves.mp ((same leaf).mp member) with ⟨tree, inside, lies⟩
    exact (canonical.factored tree inside).regular.path_ne_nil leaf lies
  apply (canonical_factor paths).sameSet canonical
  intro leaf
  rw [mem_allLeaves_factor, same]

/-- Factoring and flattening are inverse to each other. Factoring any leaves gives a canonical set that
holds each of them once and nothing else, and factoring the leaves of a canonical set gives this set. -/
theorem factor_inverse :
    (∀ leaves : List Leaf, (∀ leaf ∈ leaves, leaf.path ≠ []) →
      Canonical (factor leaves) ∧ (allLeaves (factor leaves)).Nodup ∧
        ∀ leaf, leaf ∈ allLeaves (factor leaves) ↔ leaf ∈ leaves) ∧
    ∀ trees : List Tree, Canonical trees → ∀ leaves : List Leaf,
      (∀ leaf, leaf ∈ leaves ↔ leaf ∈ allLeaves trees) → sameSet (factor leaves) trees = true := by
  constructor
  · intro leaves paths
    refine ⟨canonical_factor paths, ?_, fun leaf => mem_allLeaves_factor⟩
    exact (allLeaves_factor_perm leaves).nodup_iff.mpr (nodup_eraseDups leaves)
  · intro trees canonical leaves same
    exact sameSet_factor canonical same

theorem factor_inverse_nested :
    Canonical [.group [.name "a"] [.leaf ⟨[.name "b"], none, {}⟩, .leaf ⟨[.name "b"], some "x", {}⟩,
      .group [.name "b"] [.leaf ⟨[.name "c"], none, {}⟩, .leaf ⟨[.glob], none, {}⟩]]] ∧
    sameSet (factor [⟨[.name "a", .name "b", .glob], none, {}⟩, ⟨[.name "a", .name "b"], some "x", {}⟩,
        ⟨[.name "a", .name "b", .name "c"], none, {}⟩, ⟨[.name "a", .name "b"], none, {}⟩])
      [.group [.name "a"] [.leaf ⟨[.name "b"], none, {}⟩, .leaf ⟨[.name "b"], some "x", {}⟩,
        .group [.name "b"] [.leaf ⟨[.name "c"], none, {}⟩, .leaf ⟨[.glob], none, {}⟩]]] = true := by
  let leaves : List Leaf := [⟨[.name "a", .name "b"], none, {}⟩,
    ⟨[.name "a", .name "b"], some "x", {}⟩, ⟨[.name "a", .name "b", .name "c"], none, {}⟩,
    ⟨[.name "a", .name "b", .glob], none, {}⟩]
  have paths : ∀ leaf ∈ leaves, leaf.path ≠ [] := by decide
  have factored : factor leaves =
        [.group [.name "a"] [.leaf ⟨[.name "b"], none, {}⟩, .leaf ⟨[.name "b"], some "x", {}⟩,
          .group [.name "b"] [.leaf ⟨[.name "c"], none, {}⟩, .leaf ⟨[.glob], none, {}⟩]]] := by cbv
  have canonical := (factor_inverse.1 leaves paths).1
  rw [factored] at canonical
  refine ⟨canonical, factor_inverse.2 _ canonical _ ?_⟩
  intro leaf
  simp only [allLeaves, Tree.leaves, List.map_cons, List.map_nil, List.append_nil, List.cons_append,
    List.nil_append, Leaf.under, List.mem_cons, List.not_mem_nil, or_false]
  constructor
  · intro given
    rcases given with rfl | rfl | rfl | rfl <;> simp
  · intro given
    rcases given with rfl | rfl | rfl | rfl <;> simp

end ImportBlock.Tree
