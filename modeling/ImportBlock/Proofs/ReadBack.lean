import ImportBlock.Proofs.Tree.Canonical
import ImportBlock.Proofs.UseItem
import Mathlib

/-! Statements that no text gave. Expanding one checks its words and its paths, and what it gives can be
written and read back. Two checks let too much through: `Identifier.accepts` lets a line feed at the end
of a word pass, and a star may stand inside a path. Exactly the trees that show neither are read back. -/

namespace ImportBlock

/-- Whether a leaf has nothing in it that only a statement built by hand can have: no word ends with a
line feed, and no glob stands before the end of the path. -/
structure Leaf.IsClean (leaf : Leaf) : Prop where
  words : ∀ segment ∈ leaf.path, segment.text.toList.getLast? ≠ some '\n'
  target : ∀ target, leaf.rename = some target → target.toList.getLast? ≠ some '\n'
  inside : ∀ segment ∈ leaf.path.dropLast, segment.kind ≠ .glob

/-! ## What is let through -/

theorem Segment.isWord_of_check {before : Path} {last inGroup : Bool} {word : String}
    {segment : Segment} (checked : check before last inGroup word = .ok segment)
    (noGlob : segment.kind ≠ .glob) (noFeed : segment.text.toList.getLast? ≠ some '\n') :
    Identifier.IsWord word.toList := by
  rcases check_eq_ok_iff.mp checked with ⟨rfl, _, stands⟩
  rw [text_ofText] at noFeed
  unfold ofText at noGlob stands
  split_ifs at noGlob stands with isStar isSelf isSuper isCrate
  · exact absurd rfl noGlob
  · rw [isSelf]
    decide
  · rw [isSuper]
    decide
  · rw [isCrate]
    decide
  · have valid : (name word).isValid = true := stands
    simp only [isValid, name, SegmentKind.marker?, Bool.and_eq_true] at valid
    exact Identifier.isWord_of_accepts valid.1.1 noFeed

/-- Whether the rules of paths let each segment of a path stand in front of the next one. -/
def Path.Checked : Path → Prop :=
  AllBehind fun before segment => ∃ inGroup word, Segment.check before false inGroup word = .ok segment

namespace Path

theorem Checked.leads {path : Path} (checked : path.Checked)
    (words : ∀ segment ∈ path, segment.text.toList.getLast? ≠ some '\n')
    (noGlob : ∀ segment ∈ path, segment.kind ≠ .glob) : path.Leads := by
  intro before segment after equal
  have member : segment ∈ path := equal ▸ List.mem_append_right _ List.mem_cons_self
  rcases checked before segment after equal with ⟨inGroup, word, here⟩
  exact Segment.stands_of_check
    (Segment.isWord_of_check here (noGlob segment member) (words segment member)) here

end Path

namespace Leaf

theorem IsClean.legal {before : Path} {last : Segment} {rename : Option String} {metadata : Metadata}
    (clean : IsClean ⟨before ++ [last], rename, metadata⟩) (checked : before.Checked)
    {inGroup : Bool} {word : String} (checkedLast : Segment.check before true inGroup word = .ok last)
    (renamed : ∀ target, rename = some target → target = "_" ∨ isRenameTarget target = true) :
    Legal ⟨before ++ [last], rename, metadata⟩ := by
  have words := List.forall_mem_append.mp clean.words
  have inside := clean.inside
  rw [List.dropLast_concat] at inside
  have noGlob : last.kind ≠ .glob := by
    intro isGlob
    have stands := (Segment.check_eq_ok_iff.mp checkedLast).2.2
    simp [Segment.MayStand, isGlob] at stands
  have isWord := Segment.isWord_of_check checkedLast noGlob (words.2 last List.mem_cons_self)
  refine legal_concat.mpr
    ⟨checked.leads words.1 inside, Segment.stands_of_check isWord checkedLast, ?_⟩
  intro target equal
  refine ⟨noGlob, ?_, renamed target equal⟩
  rcases renamed target equal with rfl | isTarget
  · decide
  · rw [isRenameTarget, Bool.and_eq_true] at isTarget
    exact Identifier.isWord_of_accepts isTarget.1 (clean.target target equal)

theorem legal_glob {before : Path} {metadata : Metadata} (behind : before ≠ [])
    (clean : IsClean ⟨before ++ [.glob], none, metadata⟩) (checked : before.Checked) :
    Legal ⟨before ++ [.glob], none, metadata⟩ := by
  have inside := clean.inside
  rw [List.dropLast_concat] at inside
  have leads := checked.leads (List.forall_mem_append.mp clean.words).1 inside
  have renamed : Segment.glob.MayBeRenamed none := by
    intro target equal
    cases equal
  exact legal_concat.mpr ⟨leads, Segment.stands_glob behind, renamed⟩

/-- A leaf that a text can spell is clean. -/
theorem Legal.isClean {leaf : Leaf} (legal : leaf.Legal) : leaf.IsClean := by
  have ends : ∀ {word : String}, Identifier.IsWord word.toList →
      word.toList.getLast? ≠ some '\n' := by
    intro word isWord feed
    exact Identifier.line_feed_not_mem isWord (List.mem_of_getLast? feed)
  rcases exists_eq_concat legal.path.ne_nil with ⟨parents, last, rename, metadata, rfl⟩
  rcases legal_concat.mp legal with ⟨leads, stands, renamed⟩
  have inside : ∀ segment ∈ parents,
      segment.kind ≠ .glob ∧ Identifier.IsWord segment.text.toList := by
    intro segment member
    rcases List.append_of_mem member with ⟨front, back, rfl⟩
    exact UseTree.isWord_of_leads leads
  refine ⟨?_, ?_, ?_⟩
  · intro segment member
    rcases List.mem_append.mp member with within | final
    · exact ends (inside segment within).2
    · rw [List.mem_singleton.mp final]
      by_cases isGlob : last.kind = .glob
      · rw [Segment.Stands, if_pos isGlob] at stands
        rw [stands.1]
        decide
      · rw [Segment.Stands, if_neg isGlob] at stands
        exact ends stands.1
  · intro target equal
    exact ends (renamed target equal).2.1
  · intro segment member
    rw [List.dropLast_concat] at member
    exact (inside segment member).1

end Leaf

namespace UseTree

variable {metadata : Metadata}

mutual
/-- Whatever words a tree is made of, it expands to leaves with a path and with the metadata of the item,
and those of them that are clean are legal. -/
theorem legal_of_isClean : ∀ {tree : UseTree} {before : Path}, before.Checked →
    ∀ {inGroup : Bool} {found : List Leaf}, tree.leaves metadata before inGroup = .ok found →
      ∀ leaf ∈ found, (leaf.path ≠ [] ∧ leaf.metadata = metadata) ∧ (leaf.IsClean → leaf.Legal)
  | .name word, before, checked, inGroup, found, success => by
      rw [leaves] at success
      rcases exists_of_bind_eq_ok success with ⟨segment, here, equal⟩
      cases equal
      intro leaf member
      rw [List.mem_singleton.mp member]
      exact ⟨⟨by simp, rfl⟩, fun clean => clean.legal checked here nofun⟩
  | .rename word target, before, checked, inGroup, found, success => by
      rw [leaves] at success
      rcases exists_of_bind_eq_ok success with ⟨segment, here, success⟩
      split at success
      · next isTarget =>
          cases success
          simp only [Bool.or_eq_true, decide_eq_true_eq] at isTarget
          intro leaf member
          rw [List.mem_singleton.mp member]
          refine ⟨⟨by simp, rfl⟩, fun clean => clean.legal checked here ?_⟩
          intro target' equal
          cases equal
          exact isTarget
      · cases success
  | .glob, before, checked, inGroup, found, success => by
      rw [leaves] at success
      split at success
      · cases success
      · next behind =>
          cases success
          intro leaf member
          rw [List.mem_singleton.mp member]
          exact ⟨⟨by simp, rfl⟩, fun clean => Leaf.legal_glob behind clean checked⟩
  | .path word rest, before, checked, inGroup, found, success => by
      rw [leaves] at success
      rcases exists_of_bind_eq_ok success with ⟨segment, here, success⟩
      exact legal_of_isClean (checked.concat ⟨_, _, here⟩) success
  | .group items, before, checked, inGroup, found, success => by
      rw [leaves] at success
      exact allLegal_of_isClean checked success
  | .foreign value, before, checked, inGroup, found, success => by
      cases success

theorem allLegal_of_isClean : ∀ {items : List UseTree} {before : Path}, before.Checked →
    ∀ {found : List Leaf}, allLeaves metadata before items = .ok found →
      ∀ leaf ∈ found, (leaf.path ≠ [] ∧ leaf.metadata = metadata) ∧ (leaf.IsClean → leaf.Legal)
  | [], before, checked, found, success => by
      cases success
      exact nofun
  | tree :: rest, before, checked, found, success => by
      rw [allLeaves] at success
      rcases exists_of_bind_eq_ok success with ⟨first, here, success⟩
      rcases exists_of_bind_eq_ok success with ⟨others, later, success⟩
      cases success
      intro leaf member
      rcases List.mem_append.mp member with inside | behind
      · exact legal_of_isClean checked here leaf inside
      · exact allLegal_of_isClean checked later leaf behind
end

end UseTree

/-! ## Reading back -/

/-- Whether the text of a tree is read as one statement, which expands to this tree alone. -/
def Tree.IsReadBack (tree : Tree) (fragment : Option Int) : Prop :=
  ∃ statement, Statement.parse ("use " ++ tree.source ++ ";") fragment = .ok [statement] ∧
    ∃ result, statement.expand = .ok [result] ∧ result.same tree = true

namespace Tree

theorem Factored.canonical_singleton {tree : Tree} (factored : tree.Factored) :
    Canonical [tree] := by
  refine ⟨by simpa using factored, ?_⟩
  intro left inLeft right inRight different
  rw [List.mem_singleton.mp inLeft, List.mem_singleton.mp inRight] at different
  exact absurd (same_refl tree) different

/-- The leaves of one tree are factored into this tree alone. -/
theorem Factored.exists_factor_eq {tree : Tree} (factored : tree.Factored) {leaves : List Leaf}
    (equal : ∀ leaf, leaf ∈ leaves ↔ leaf ∈ tree.leaves) :
    ∃ result, factor leaves = [result] ∧ result.same tree = true := by
  have canonical := factored.canonical_singleton
  have members : ∀ leaf, leaf ∈ leaves ↔ leaf ∈ allLeaves [tree] := by
    intro leaf
    rw [equal, allLeaves, allLeaves, List.append_nil]
  have same := sameSet_eq_true.mp (sameSet_factor canonical members)
  have all : ∀ result ∈ factor leaves, result.same tree = true := by
    intro result member
    rcases same.1 result member with ⟨other, inside, alike⟩
    rwa [List.mem_singleton.mp inside] at alike
  have paths : ∀ leaf ∈ leaves, leaf.path ≠ [] := by
    intro leaf member
    exact factored.regular.path_ne_nil leaf ((equal leaf).mp member)
  have nodup : (allLeaves (factor leaves)).Nodup :=
    (allLeaves_factor_perm leaves).nodup_iff.mpr (nodup_eraseDups leaves)
  have apart := pairwise_not_same nodup fun result member =>
    ((canonical_factor paths).factored result member).regular.leaves_ne_nil
  rcases results : factor leaves with _ | ⟨first, _ | ⟨second, rest⟩⟩
  · rcases same.2 tree (List.mem_singleton_self _) with ⟨result, member, _⟩
    rw [results] at member
    cases member
  · exact ⟨first, rfl, all first (results ▸ List.mem_singleton_self _)⟩
  · rw [results] at all apart
    have alike := same_trans (all first List.mem_cons_self)
      (same_symm (all second (List.mem_cons_of_mem _ List.mem_cons_self)))
    exact absurd alike (List.rel_of_pairwise_cons apart List.mem_cons_self)

theorem IsReadBack.isClean {tree : Tree} {fragment : Option Int} (readBack : tree.IsReadBack fragment) :
    ∀ leaf ∈ tree.leaves, leaf.IsClean := by
  rcases readBack with ⟨statement, parsed, result, expanded, same⟩
  have read := (Statement.isRead_parse parsed statement (List.mem_singleton_self _)).2
  intro leaf member
  have inside : leaf ∈ allLeaves [result] := by
    rw [allLeaves, allLeaves, List.append_nil]
    exact mem_leaves_of_same (same_symm same) leaf member
  exact (Statement.legal_of_expand read expanded leaf inside).1.isClean

/-- However a tree of legal leaves without metadata is grouped, its text is read as one statement, which
spells the leaves of the tree. -/
theorem Regular.exists_parse {tree : Tree} (regular : tree.Regular)
    (legal : ∀ leaf ∈ tree.leaves, leaf.Legal ∧ leaf.metadata = {}) (fragment : Option Int) :
    ∃ statement, Statement.parse ("use " ++ tree.source ++ ";") fragment = .ok [statement] ∧
      ∃ found, statement.tree.leaves statement.metadata [] false = .ok found ∧
        ∀ leaf, leaf ∈ found ↔ leaf ∈ tree.leaves := by
  have holds : ∀ leaf, UseItem.Holds ⟨tree, {}⟩ leaf ↔ leaf ∈ tree.leaves := by
    intro leaf
    constructor
    · intro held
      rcases held with ⟨inner, inside, rfl⟩
      rwa [← (legal inner inside).2]
    · intro member
      exact ⟨leaf, member, by rw [← (legal leaf member).2]⟩
  have plain : Metadata.IsRead {} := ⟨⟨.inherited, trivial, rfl⟩, nofun⟩
  have legalHeld : ∀ leaf, UseItem.Holds ⟨tree, {}⟩ leaf → leaf.Legal :=
    fun leaf held => (legal leaf ((holds leaf).mp held)).1
  rcases UseItem.exists_isWrittenAs regular legalHeld plain with ⟨written, is⟩
  have text : UseItem.text ⟨tree, {}⟩ = "use " ++ tree.source ++ ";" := by
    simp [UseItem.text]
  have spells : Text.Spells ("use " ++ tree.source ++ ";").toList
      ([written].flatMap WrittenItem.words) [] := by
    rw [← text, is.text, List.flatMap_singleton]
    exact (WrittenItem.fills_source is.read []).spells
  rcases Statement.exists_parse (by simpa using is.read) spells fragment with
    ⟨statements, parsed, contents⟩
  rcases List.map_eq_singleton_iff.mp contents with ⟨statement, rfl, content⟩
  rw [Statement.content, Prod.mk.injEq] at content
  rcases is.expands with ⟨found, success⟩
  refine ⟨statement, parsed, found, ?_, ?_⟩
  · rw [content.1, content.2]
    exact success
  · intro leaf
    rw [← UseTree.gives_iff success, is.gives, holds]

theorem Factored.isReadBack {tree : Tree} (factored : tree.Factored)
    (legal : ∀ leaf ∈ tree.leaves, leaf.Legal ∧ leaf.metadata = {}) (fragment : Option Int) :
    tree.IsReadBack fragment := by
  rcases factored.regular.exists_parse legal fragment with
    ⟨statement, parsed, found, success, members⟩
  rcases factored.exists_factor_eq members with ⟨result, single, same⟩
  refine ⟨statement, parsed, result, ?_, same⟩
  rw [Statement.expand, Statement.leaves, success]
  change Except.ok (sorted (factor found)) = _
  rw [single, sorted, List.mergeSort_singleton]

end Tree

/-- What a statement without metadata expands to, however it was built, is read back from its text
exactly if it is clean. -/
theorem Statement.isReadBack_iff {statement : Statement} (plain : statement.metadata = {})
    {trees : List Tree} (expanded : statement.expand = .ok trees) {tree : Tree} (member : tree ∈ trees)
    (fragment : Option Int) :
    tree.IsReadBack fragment ↔ ∀ leaf ∈ tree.leaves, leaf.IsClean := by
  rcases Statement.expands_of_expand expanded with ⟨found, success⟩
  have given := UseTree.legal_of_isClean Path.allBehind_nil success
  have equal : trees = Tree.sorted (Tree.factor found) := by
    rw [Statement.expand, Statement.leaves, success] at expanded
    exact (Except.ok.inj expanded).symm
  have inside : tree ∈ Tree.factor found := by
    rw [equal] at member
    exact (List.mergeSort_perm _ _).mem_iff.mp member
  have factored := (Tree.canonical_factor fun leaf lies => (given leaf lies).1.1).factored tree inside
  constructor
  · exact Tree.IsReadBack.isClean
  · intro clean
    apply factored.isReadBack
    intro leaf lies
    have spelled := given leaf
      (Tree.mem_allLeaves_factor.mp (Tree.mem_allLeaves.mpr ⟨tree, inside, lies⟩))
    exact ⟨spelled.2 (clean leaf lies), spelled.1.2.trans plain⟩

theorem Statement.isReadBack_nested :
    ∃ trees, Statement.expand
        ⟨.path "a" (.group [.name "self", .rename "b" "_", .path "r#c" .glob]), {}, some 0, none⟩ =
          .ok trees ∧
      ∀ tree ∈ trees, tree.IsReadBack (some 0) := by
  have expanded : Statement.expand
      ⟨.path "a" (.group [.name "self", .rename "b" "_", .path "r#c" .glob]), {}, some 0, none⟩ =
        .ok [.group [.name "a"] [.leaf ⟨[.self], none, {}⟩, .leaf ⟨[.name "b"], some "_", {}⟩,
          .leaf ⟨[.name "r#c", .glob], none, {}⟩]] := by cbv
  refine ⟨_, expanded, ?_⟩
  intro tree member
  apply (Statement.isReadBack_iff rfl expanded member (some 0)).mpr
  rw [List.mem_singleton.mp member]
  intro leaf inside
  simp only [Tree.leaves, Tree.allLeaves, List.append_nil, List.singleton_append, List.map_cons,
    List.map_nil, List.mem_cons, List.not_mem_nil, or_false] at inside
  rcases inside with rfl | rfl | rfl <;> exact ⟨by decide, by simp [Leaf.under], by decide⟩

/-- A line feed behind a word and a star inside a path are let through, but no text spells them. -/
theorem Statement.not_isReadBack_line_feed_star :
    (Statement.expand ⟨.name "a\n", {}, some 0, none⟩ = .ok [.leaf ⟨[.name "a\n"], none, {}⟩] ∧
      ¬Tree.IsReadBack (.leaf ⟨[.name "a\n"], none, {}⟩) (some 0)) ∧
    Statement.expand ⟨.path "*" (.name "b"), {}, some 0, none⟩ =
        .ok [.leaf ⟨[.glob, .name "b"], none, {}⟩] ∧
      ¬Tree.IsReadBack (.leaf ⟨[.glob, .name "b"], none, {}⟩) (some 0) := by
  refine ⟨⟨by cbv, ?_⟩, by cbv, ?_⟩
  · intro readBack
    have clean := readBack.isClean _ (List.mem_singleton_self _)
    exact clean.words (.name "a\n") (List.mem_singleton_self _) (by decide)
  · intro readBack
    have clean := readBack.isClean _ (List.mem_singleton_self _)
    exact clean.inside .glob (List.mem_singleton_self _) rfl

end ImportBlock
