import ImportBlock.Tree.Printer
import ImportBlock.Proofs.Expansion
import ImportBlock.Proofs.Granularity

/-! Import trees as use trees. The text of an import tree is that of a use tree, and this expands to
the leaves of the import tree. -/

namespace ImportBlock

/-! ## Paths -/

namespace UseTree

def behind (stem : Path) (tree : UseTree) : UseTree :=
  stem.foldr (fun segment rest => .path segment.text rest) tree

theorem source_behind {stem : Path} (nonempty : stem ≠ []) (tree : UseTree) :
    (behind stem tree).source = stem.text ++ "::" ++ tree.source := by
  induction stem with
  | nil => exact absurd rfl nonempty
  | cons segment rest induction =>
      cases rest with
      | nil => rw [Path.text, List.map_singleton, String.intercalate_singleton]; rfl
      | cons next others =>
          have later := induction nofun
          change segment.text ++ "::" ++ (behind (next :: others) tree).source = _
          rw [later]
          simp only [Path.text, List.map_cons, String.intercalate_cons_cons, String.append_assoc]

theorem isWord_of_leads {before : Path} {segment : Segment} {after : Path}
    (leads : Path.Leads (before ++ segment :: after)) :
    segment.kind ≠ .glob ∧ Identifier.IsWord segment.text.toList := by
  have stands := leads.stands
  unfold Segment.Stands at stands
  split at stands
  · cases stands.2.2
  · next noGlob => exact ⟨noGlob, stands.1⟩

theorem isRead_behind {before stem : Path} (leads : Path.Leads (before ++ stem)) {tree : UseTree}
    (read : tree.IsRead) : (behind stem tree).IsRead := by
  induction stem generalizing before with
  | nil => exact read
  | cons segment rest induction =>
      refine ⟨(isWord_of_leads leads).2, ?_⟩
      rw [List.append_cons] at leads
      exact induction leads

theorem leaves_behind (metadata : Metadata) {before stem : Path} (nonempty : stem ≠ [])
    (leads : Path.Leads (before ++ stem)) (inGroup : Bool) (tree : UseTree) :
    (behind stem tree).leaves metadata before inGroup =
      tree.leaves metadata (before ++ stem) false := by
  induction stem generalizing before inGroup with
  | nil => exact absurd rfl nonempty
  | cons segment rest induction =>
      have checked := Segment.check_of_stands leads.stands (isWord_of_leads leads).1 inGroup
        (.inl rfl)
      change (Segment.check before false inGroup segment.text >>= fun segment =>
        (behind rest tree).leaves metadata (before ++ [segment]) false) = _
      rw [checked]
      change (behind rest tree).leaves metadata (before ++ [segment]) false = _
      have split : before ++ segment :: rest = before ++ [segment] ++ rest :=
        List.append_cons before segment rest
      rw [split] at leads ⊢
      cases rest with
      | nil => rw [List.append_nil]; rfl
      | cons next others => exact induction nofun leads false

end UseTree

/-! ## Leaves -/

namespace Leaf

def ending (rename : Option String) (last : Segment) : UseTree :=
  match rename with
  | some target => .rename last.text target
  | none => if last.kind = .glob then .glob else .name last.text

/-- A leaf as a use tree. After other segments a `self` is put into braces. -/
def useTree (leaf : Leaf) : UseTree :=
  match leaf.path.getLast? with
  | none => .name ""
  | some last =>
      let parents := leaf.path.dropLast
      if parents ≠ [] && last.kind = .self then
        .behind parents (.group [ending leaf.rename last])
      else .behind parents (ending leaf.rename last)

theorem exists_eq_concat {leaf : Leaf} (nonempty : leaf.path ≠ []) :
    ∃ parents last rename metadata, leaf = ⟨parents ++ [last], rename, metadata⟩ := by
  rcases leaf with ⟨path, rename, metadata⟩
  rcases List.eq_nil_or_concat path with rfl | ⟨parents, last, rfl⟩
  · exact absurd rfl nonempty
  · exact ⟨parents, last, rename, metadata, by rw [List.concat_eq_append]⟩

theorem legal_under_concat {before parents : Path} {last : Segment} {rename : Option String}
    {metadata : Metadata} :
    (Leaf.under before ⟨parents ++ [last], rename, metadata⟩).Legal ↔
      Path.Leads (before ++ parents) ∧ last.Stands (before ++ parents) true ∧
        last.MayBeRenamed rename := by
  rw [under, ← List.append_assoc]
  exact legal_concat

theorem source_ending {before : Path} {last : Segment} (stands : last.Stands before true)
    (rename : Option String) (own : Metadata) :
    (ending rename last).source = source ⟨[last], rename, own⟩ := by
  cases rename with
  | some name => rfl
  | none =>
      by_cases isGlob : last.kind = .glob
      · rw [Segment.Stands, if_pos isGlob] at stands
        rw [stands.1]
        rfl
      · rw [ending, if_neg isGlob]
        rfl

theorem source_concat {parents : Path} (nonempty : parents ≠ []) (last : Segment)
    (rename : Option String) (own : Metadata) :
    source ⟨parents ++ [last], rename, own⟩ =
      if last.kind = .self then
        parents.text ++ "::\x7b" ++ source ⟨[last], rename, own⟩ ++ "\x7d"
      else parents.text ++ "::" ++ source ⟨[last], rename, own⟩ := by
  unfold source
  rw [List.getLast?_concat, List.dropLast_concat]
  cases parents with
  | nil => exact absurd rfl nonempty
  | cons first others => rfl

theorem isRead_ending {before : Path} {last : Segment} (stands : last.Stands before true)
    {rename : Option String} (renamed : last.MayBeRenamed rename) :
    (ending rename last).IsRead := by
  cases rename with
  | some target =>
      have parts := renamed target rfl
      rw [Segment.Stands, if_neg parts.1] at stands
      exact ⟨stands.1, parts.2.1⟩
  | none =>
      by_cases isGlob : last.kind = .glob
      · rw [ending, if_pos isGlob]
        trivial
      · rw [Segment.Stands, if_neg isGlob] at stands
        rw [ending, if_neg isGlob]
        exact stands.1

theorem leaves_ending {before : Path} {last : Segment} (stands : last.Stands before true)
    {rename : Option String} (renamed : last.MayBeRenamed rename)
    {inGroup : Bool} (mild : last.kind ≠ .self ∨ inGroup = true) (metadata : Metadata) :
    (ending rename last).leaves metadata before inGroup =
      .ok [⟨before ++ [last], rename, metadata⟩] := by
  cases rename with
  | some target =>
      have parts := renamed target rfl
      have checked := Segment.check_of_stands stands parts.1 inGroup (.inr mild)
      have legal : (target = "_" || isRenameTarget target) = true := by simpa using parts.2.2
      rw [ending, UseTree.leaves, checked]
      exact if_pos legal
  | none =>
      by_cases isGlob : last.kind = .glob
      · rw [Segment.Stands, if_pos isGlob] at stands
        rw [ending, if_pos isGlob, UseTree.leaves, if_neg stands.2.1, stands.1]
      · have checked := Segment.check_of_stands stands isGlob inGroup (.inr mild)
        rw [ending, if_neg isGlob, UseTree.leaves, checked]
        rfl

theorem useTree_concat (parents : Path) (last : Segment) (rename : Option String)
    (metadata : Metadata) :
    useTree ⟨parents ++ [last], rename, metadata⟩ =
      if parents ≠ [] && last.kind = .self then
        .behind parents (.group [ending rename last])
      else .behind parents (ending rename last) := by
  simp only [useTree, List.getLast?_concat, List.dropLast_concat]

variable {before parents : Path} {last : Segment} {rename : Option String} {own : Metadata}

theorem source_useTree
    (legal : (Leaf.under before ⟨parents ++ [last], rename, own⟩).Legal) :
    source ⟨parents ++ [last], rename, own⟩ = (useTree ⟨parents ++ [last], rename, own⟩).source := by
  have ends := source_ending (legal_under_concat.mp legal).2.1 rename own
  rw [useTree_concat]
  by_cases bare : parents = []
  · rw [bare]
    exact ends.symm
  · rw [source_concat bare]
    by_cases isSelf : last.kind = .self
    · have brace : "::\x7b" = "::" ++ "\x7b" := rfl
      rw [if_pos isSelf, if_pos (by simp [bare, isSelf]), UseTree.source_behind bare,
        UseTree.source, UseTree.sources, UseTree.sources, String.intercalate_singleton, ends, brace]
      simp only [String.append_assoc]
    · rw [if_neg isSelf, if_neg (by simp [isSelf]), UseTree.source_behind bare, ends]

theorem isRead_useTree
    (legal : (Leaf.under before ⟨parents ++ [last], rename, own⟩).Legal) :
    (useTree ⟨parents ++ [last], rename, own⟩).IsRead := by
  rcases legal_under_concat.mp legal with ⟨leads, stands, renamed⟩
  have ends := isRead_ending stands renamed
  rw [useTree_concat]
  split
  · exact UseTree.isRead_behind leads ⟨ends, trivial⟩
  · exact UseTree.isRead_behind leads ends

/-- A leaf that is written behind a path expands to itself. -/
theorem leaves_useTree
    (legal : (Leaf.under before ⟨parents ++ [last], rename, own⟩).Legal) {inGroup : Bool}
    (outside : inGroup = true ∨ before = []) (metadata : Metadata) :
    (useTree ⟨parents ++ [last], rename, own⟩).leaves metadata before inGroup =
      .ok [⟨before ++ (parents ++ [last]), rename, metadata⟩] := by
  rcases legal_under_concat.mp legal with ⟨leads, stands, renamed⟩
  have expanded : ∀ inGroup, last.kind ≠ .self ∨ inGroup = true →
      (ending rename last).leaves metadata (before ++ parents) inGroup =
        .ok [⟨before ++ parents ++ [last], rename, metadata⟩] :=
    fun inGroup mild => leaves_ending stands renamed mild metadata
  rw [useTree_concat, ← List.append_assoc]
  by_cases bare : parents = []
  · -- A `self` that stands alone is legal inside braces only, and not at the start of a path.
    have mild : last.kind ≠ .self ∨ inGroup = true := by
      rcases outside with inside | atStart
      · exact .inr inside
      · left
        intro isSelf
        have noGlob : last.kind ≠ .glob := by simp [isSelf]
        rw [Segment.Stands, if_neg noGlob, atStart, bare] at stands
        simp [Segment.MayStand, isSelf] at stands
    have here := expanded inGroup mild
    rw [bare, List.append_nil] at here ⊢
    exact here
  · by_cases isSelf : last.kind = .self
    · rw [if_pos (by simp [bare, isSelf]), UseTree.leaves_behind metadata bare leads,
        UseTree.leaves, UseTree.allLeaves, expanded true (.inr rfl)]
      rfl
    · rw [if_neg (by simp [isSelf]), UseTree.leaves_behind metadata bare leads,
        expanded false (.inl isSelf)]

end Leaf

/-! ## Trees -/

namespace Tree

theorem inKeyOrder_map {α β : Type} (f : α → β) (items : List (SortKey × α)) :
    inKeyOrder (items.map fun item => (item.1, f item.2)) = (inKeyOrder items).map f := by
  unfold inKeyOrder
  have moved : (items.mergeSort fun left right => left.1.le right.1).map
      (fun item => (item.1, f item.2)) =
        (items.map fun item => (item.1, f item.2)).mergeSort fun left right =>
          left.1.le right.1 :=
    List.map_mergeSort fun _ _ _ _ => rfl
  rw [← moved, List.map_map, List.map_map]
  rfl

theorem mem_inKeyOrder {α : Type} {items : List (SortKey × α)} {item : α} :
    item ∈ inKeyOrder items ↔ item ∈ items.map (·.2) :=
  ((List.mergeSort_perm items _).map _).mem_iff

mutual
/-- An import tree as a use tree, the children of its groups in their order. -/
def useTree : Tree → UseTree
  | .leaf item => item.useTree
  | .group stem children => .behind stem (.group (inKeyOrder (useTrees children)))

def useTrees : List Tree → List (SortKey × UseTree)
  | [] => []
  | tree :: rest => (tree.sortKey, tree.useTree) :: useTrees rest
end

theorem useTrees_eq_map (children : List Tree) :
    useTrees children = children.map fun child => (child.sortKey, child.useTree) := by
  induction children with
  | nil => rfl
  | cons child rest induction => rw [useTrees, induction, List.map_cons]

theorem sources_eq_map (children : List Tree) :
    sources children = children.map fun child => (child.sortKey, child.source) := by
  induction children with
  | nil => rfl
  | cons child rest induction => rw [sources, induction, List.map_cons]

theorem mem_useTrees {children : List Tree} {item : UseTree} :
    item ∈ inKeyOrder (useTrees children) ↔ ∃ child ∈ children, child.useTree = item := by
  rw [mem_inKeyOrder, useTrees_eq_map, List.map_map, List.mem_map]
  rfl

theorem mem_leaves_group {stem : Path} {children : List Tree} {leaf : Leaf} :
    leaf ∈ (group stem children).leaves ↔
      ∃ child ∈ children, ∃ inner ∈ child.leaves, inner.under stem = leaf := by
  rw [leaves, allLeaves_eq_flatMap, List.mem_map]
  simp only [List.mem_flatMap]
  constructor
  · intro found
    rcases found with ⟨inner, ⟨child, member, inside⟩, equal⟩
    exact ⟨child, member, inner, inside, equal⟩
  · intro found
    rcases found with ⟨child, member, inner, inside, equal⟩
    exact ⟨inner, ⟨child, member, inside⟩, equal⟩

theorem Regular.exists_leaf {tree : Tree} (regular : tree.Regular) :
    ∃ leaf ∈ tree.leaves, leaf.path ≠ [] := by
  induction regular with
  | leaf path => exact ⟨_, List.mem_singleton_self _, path⟩
  | @group stem children _ nonempty _ induction =>
      rcases List.exists_mem_of_ne_nil children nonempty with ⟨child, member⟩
      rcases induction child member with ⟨inner, inside, path⟩
      refine ⟨inner.under stem, mem_leaves_group.mpr ⟨child, member, inner, inside, rfl⟩, ?_⟩
      simp [Leaf.under, path]

theorem Regular.exists_root {tree : Tree} (regular : tree.Regular) :
    ∃ root, tree.root? = some root ∧ ∀ leaf ∈ tree.leaves, leaf.path.head? = some root := by
  cases regular with
  | @leaf item path =>
      rcases List.exists_cons_of_ne_nil path with ⟨root, rest, equal⟩
      refine ⟨root, by rw [root?, equal, List.head?_cons], ?_⟩
      intro leaf member
      rw [List.mem_singleton.mp member, equal, List.head?_cons]
  | @group stem children nonempty _ _ =>
      rcases List.exists_cons_of_ne_nil nonempty with ⟨root, rest, rfl⟩
      refine ⟨root, rfl, ?_⟩
      intro leaf member
      rcases mem_leaves_group.mp member with ⟨_, _, inner, _, rfl⟩
      rfl

/-- Whether a tree can be written behind a path. -/
def Written (before : Path) (tree : Tree) : Prop :=
  ∀ leaf ∈ tree.leaves, (leaf.under before).Legal

theorem Written.child {before stem : Path} {children : List Tree}
    (written : Written before (.group stem children)) {child : Tree} (member : child ∈ children) :
    Written (before ++ stem) child := by
  intro leaf inside
  rw [← Leaf.under_under]
  exact written _ (mem_leaves_group.mpr ⟨child, member, leaf, inside, rfl⟩)

theorem Written.leads {before stem : Path} {children : List Tree}
    (written : Written before (.group stem children))
    (regular : Regular (.group stem children)) : Path.Leads (before ++ stem) := by
  cases regular with
  | group _ nonempty regular =>
      rcases List.exists_mem_of_ne_nil children nonempty with ⟨child, member⟩
      rcases (regular child member).exists_leaf with ⟨leaf, inside, path⟩
      rcases Leaf.exists_eq_concat path with ⟨parents, last, rename, metadata, rfl⟩
      exact (Leaf.legal_under_concat.mp (written.child member _ inside)).1.of_append

theorem source_useTree {tree : Tree} (regular : tree.Regular) :
    ∀ {before : Path}, Written before tree → tree.source = tree.useTree.source := by
  induction regular with
  | leaf path =>
      intro before written
      rcases Leaf.exists_eq_concat path with ⟨parents, last, rename, metadata, rfl⟩
      exact Leaf.source_useTree (written _ (List.mem_singleton_self _))
  | @group stem children nonempty _ _ induction =>
      intro before written
      have inner : sources children =
          (useTrees children).map fun item => (item.1, item.2.source) := by
        rw [sources_eq_map, useTrees_eq_map, List.map_map]
        apply List.map_congr_left
        intro child member
        rw [induction child member (written.child member)]
        rfl
      rw [source, useTree, UseTree.source_behind nonempty, UseTree.source, UseTree.sources_eq_map,
        inner, inKeyOrder_map]
      simp only [String.append_assoc]
      rfl

theorem isRead_useTree {tree : Tree} (regular : tree.Regular) :
    ∀ {before : Path}, Written before tree → tree.useTree.IsRead := by
  induction regular with
  | leaf path =>
      intro before written
      rcases Leaf.exists_eq_concat path with ⟨parents, last, rename, metadata, rfl⟩
      exact Leaf.isRead_useTree (written _ (List.mem_singleton_self _))
  | @group stem children stemNonempty nonempty regular induction =>
      intro before written
      apply UseTree.isRead_behind (written.leads (.group stemNonempty nonempty regular))
      rw [UseTree.IsRead, UseTree.allRead_iff]
      intro item member
      rcases mem_useTrees.mp member with ⟨child, inside, rfl⟩
      exact induction child inside (written.child inside)

theorem exists_allLeaves {metadata : Metadata} {before : Path} {items : List UseTree}
    (expands : ∀ item ∈ items, ∃ found, item.leaves metadata before true = .ok found) :
    ∃ found, UseTree.allLeaves metadata before items = .ok found ∧
      ∀ leaf, leaf ∈ found ↔
        ∃ item ∈ items, ∃ inner, item.leaves metadata before true = .ok inner ∧ leaf ∈ inner := by
  induction items with
  | nil => exact ⟨[], rfl, by simp⟩
  | cons item rest induction =>
      have parts := List.forall_mem_cons.mp expands
      rcases parts.1 with ⟨first, here⟩
      rcases induction parts.2 with ⟨others, later, behind⟩
      refine ⟨first ++ others, ?_, ?_⟩
      · rw [UseTree.allLeaves, here, later]
        rfl
      · intro leaf
        rw [List.mem_append, behind]
        simp [here]

/-- What is written for a tree expands to the leaves of the tree. -/
theorem exists_leaves_useTree (metadata : Metadata) {tree : Tree} (regular : tree.Regular) :
    ∀ {before : Path}, Written before tree → ∀ {inGroup : Bool}, inGroup = true ∨ before = [] →
      ∃ found, tree.useTree.leaves metadata before inGroup = .ok found ∧
        ∀ leaf, leaf ∈ found ↔
          ∃ inner ∈ tree.leaves, { inner.under before with metadata } = leaf := by
  induction regular with
  | leaf path =>
      intro before written inGroup outside
      rcases Leaf.exists_eq_concat path with ⟨parents, last, rename, own, rfl⟩
      have legal := written _ (List.mem_singleton_self _)
      refine ⟨_, Leaf.leaves_useTree legal outside metadata, ?_⟩
      intro leaf
      simp [leaves, Leaf.under, eq_comm]
  | @group stem children stemNonempty nonempty regular induction =>
      intro before written inGroup _
      have leads := written.leads (.group stemNonempty nonempty regular)
      have each := fun child member =>
        @induction child member (before ++ stem) (written.child member) true (.inl rfl)
      have expands : ∀ item ∈ inKeyOrder (useTrees children),
          ∃ found, item.leaves metadata (before ++ stem) true = .ok found := by
        intro item member
        rcases mem_useTrees.mp member with ⟨child, inside, rfl⟩
        rcases each child inside with ⟨found, success, _⟩
        exact ⟨found, success⟩
      rcases exists_allLeaves expands with ⟨found, success, members⟩
      refine ⟨found, ?_, ?_⟩
      · rw [useTree, UseTree.leaves_behind metadata stemNonempty leads, UseTree.leaves, success]
      · intro leaf
        rw [members]
        constructor
        · intro given
          rcases given with ⟨item, member, inner, success, inside⟩
          rcases mem_useTrees.mp member with ⟨child, childInside, rfl⟩
          rcases each child childInside with ⟨inner', success', leaves⟩
          rw [success] at success'
          cases success'
          rcases (leaves leaf).mp inside with ⟨innermost, lies, rfl⟩
          refine ⟨_, mem_leaves_group.mpr ⟨child, childInside, innermost, lies, rfl⟩, ?_⟩
          rw [Leaf.under_under]
        · intro given
          rcases given with ⟨inner, inside, rfl⟩
          rcases mem_leaves_group.mp inside with ⟨child, member, innermost, lies, rfl⟩
          rcases each child member with ⟨found', success', leaves⟩
          refine ⟨child.useTree, mem_useTrees.mpr ⟨child, member, rfl⟩, found', success', ?_⟩
          rw [leaves, Leaf.under_under]
          exact ⟨innermost, lies, rfl⟩

end Tree

end ImportBlock
