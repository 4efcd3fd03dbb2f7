import ImportBlock.Proofs.Merge.Stages
import ImportBlock.Proofs.Section

/-! Writing a merged set and reading it again. The text of the import block is accepted, and merging
what it says gives the merged set back, which is then written as it was before. -/

namespace ImportBlock

theorem Segment.isValid_ofText {word : String} (noName : (ofText word).kind ≠ .name) :
    (ofText word).isValid = true := by
  unfold ofText at noName ⊢
  repeat' split
  all_goals first | rfl | simp_all [name]

theorem Segment.isValid_of_stands {before : Path} {last : Bool} {segment : Segment}
    (stands : segment.Stands before last) : segment.isValid = true := by
  by_cases isGlob : segment.kind = .glob
  · rw [Stands, if_pos isGlob] at stands
    rw [stands.1]
    rfl
  · rw [Stands, if_neg isGlob] at stands
    by_cases isName : segment.kind = .name
    · simpa only [MayStand, isName] using stands.2.2
    · rw [stands.2.1] at isName ⊢
      exact isValid_ofText isName

theorem Path.Legal.isValid {path : Path} (legal : path.Legal) : path.IsValid := by
  rcases legal with ⟨parents, last, rfl, leads, stands⟩
  intro segment member
  rcases List.mem_append.mp member with inside | final
  · rcases List.append_of_mem inside with ⟨front, back, rfl⟩
    exact Segment.isValid_of_stands leads.stands
  · rw [List.mem_singleton.mp final]
    exact Segment.isValid_of_stands stands

namespace MergedSet

variable {forests : List Forest} {absorbByRename : Bool} {merged : MergedSet}

theorem legal_of_leaves
    (legal : ∀ forest ∈ forests, ∀ leaf ∈ forest.leaves, leaf.Legal ∧ leaf.metadata.IsRead)
    (success : merge forests absorbByRename = .ok merged) :
    ∀ leaf ∈ merged.leaves,
      (leaf.Legal ∧ leaf.metadata.IsRead) ∧ leaf.canonical = leaf := by
  intro leaf member
  have imported := mem_imports_of_mem_leaves success member
  refine ⟨?_, Forest.canonical_of_mem_imports imported⟩
  rcases List.mem_flatMap.mp imported with ⟨forest, inside, found⟩
  rcases List.mem_map.mp found with ⟨original, lies, rfl⟩
  have given := legal forest inside original lies
  exact ⟨given.1.canonical, given.2⟩

theorem legal_of_merge (read : ∀ forest ∈ forests, ∃ text number,
    Forest.ofText text number = .ok forest)
    (success : merge forests absorbByRename = .ok merged) :
    ∀ leaf ∈ merged.leaves,
      (leaf.Legal ∧ leaf.metadata.IsRead) ∧ leaf.canonical = leaf := by
  apply legal_of_leaves _ success
  intro forest member
  rcases read forest member with ⟨text, number, forestRead⟩
  exact Forest.legal_of_ofText forestRead

/-- Whether items say what a merged set holds. -/
structure IsWrittenAs (merged : MergedSet) (results : List WrittenItem) : Prop where
  read : ∀ result ∈ results, result.IsRead
  expands : ∀ result ∈ results, result.tree.Expands result.metadata
  gives : ∀ leaf, (∃ result ∈ results, result.tree.Gives result.metadata leaf) ↔
    leaf ∈ merged.leaves

/-- The text of an import block is that of items which say what the merged set holds. -/
theorem exists_sections_isWrittenAs
    (legal : ∀ leaf ∈ merged.leaves, leaf.Legal ∧ leaf.metadata.IsRead) (config : Config) :
    ∃ results, merged.IsWrittenAs results ∧
      (∀ rest, Text.Spells (merged.sections config).text.toList
        (results.flatMap WrittenItem.words) rest) ∧
      ((merged.sections config).text = "" ∨
        ∀ rest, Text.Fills (merged.sections config).text.toList
          (results.flatMap WrittenItem.words) rest) := by
  let items := merged.items config.granularity
  choose! written each using @exists_isWrittenAs merged config.granularity legal
  have members := fun item => @Sections.mem_flatten_itemBlocks config items item
  have writtenEach : ∀ result ∈ (Sections.itemBlocks config items).flatten.map written,
      ∃ item ∈ items, item.IsWrittenAs result := by
    intro result member
    rcases List.mem_map.mp member with ⟨item, inside, rfl⟩
    have present := (members item).mp inside
    exact ⟨item, present, each item present⟩
  refine ⟨(Sections.itemBlocks config items).flatten.map written, ⟨?_, ?_, ?_⟩,
    Sections.spells_text each, ?_⟩
  · intro result member
    rcases writtenEach result member with ⟨_, _, is⟩
    exact is.read
  · intro result member
    rcases writtenEach result member with ⟨_, _, is⟩
    exact is.expands
  · intro leaf
    rw [mem_leaves_iff_exists_items config.granularity]
    constructor
    · intro given
      rcases given with ⟨result, member, gives⟩
      rcases writtenEach result member with ⟨item, present, is⟩
      exact ⟨item, present, (is.gives leaf).mp gives⟩
    · intro given
      rcases given with ⟨item, present, holds⟩
      exact ⟨written item, List.mem_map_of_mem ((members item).mpr present),
        ((each item present).gives leaf).mpr holds⟩
  · by_cases nonempty : items = []
    · left
      rw [sections, show merged.items config.granularity = [] from nonempty]
      exact Sections.text_ofItems_nil
    · exact .inr (Sections.fills_text each nonempty)

/-- Statements that say what a merge kept are merged into a set with the same leaves in the same
order. -/
theorem exists_merge_of_isWrittenAs (success : merge forests absorbByRename = .ok merged)
    (legal : ∀ leaf ∈ merged.leaves, leaf.Legal ∧ leaf.canonical = leaf)
    {results : List WrittenItem} (written : merged.IsWrittenAs results)
    {statements : List Statement}
    (contents : statements.map Statement.content =
      results.map fun result => (result.metadata, result.tree)) (fragment : Option Int) :
    ∃ forest, Forest.ofStatements statements fragment = .ok forest ∧
      ∃ again, merge [forest] absorbByRename = .ok again ∧ again.leaves = merged.leaves := by
  rcases Forest.exists_ofStatements contents written.expands fragment with
    ⟨forest, formed, leaves⟩
  have same : ∀ leaf, leaf ∈ forest.leaves ↔ leaf ∈ merged.leaves := by
    intro leaf
    rw [leaves, written.gives]
  have kept : ∀ leaf, leaf ∈ Forest.imports [forest] ↔ leaf ∈ merged.leaves := by
    intro leaf
    rw [Forest.mem_imports_singleton, same]
    intro other member
    exact (legal other ((same other).mp member)).2
  rcases exists_merge_of_imports success kept with ⟨again, succeeded, _⟩
  have valid : ∀ leaf ∈ merged.leaves, leaf.path.IsValid :=
    fun leaf member => (legal leaf member).1.path.isValid
  exact ⟨forest, formed, again, succeeded, leaves_eq_of_imports success valid kept succeeded⟩

/-- The text of an import block is read as a forest with the leaves of the merged set. -/
theorem exists_ofText_text_sections
    (legal : ∀ leaf ∈ merged.leaves, leaf.Legal ∧ leaf.metadata.IsRead) (config : Config)
    (fragment : Option Int) :
    ∃ forest, Forest.ofText (merged.sections config).text fragment = .ok forest ∧
      ∀ leaf, leaf ∈ forest.leaves ↔ leaf ∈ merged.leaves := by
  rcases exists_sections_isWrittenAs legal config with ⟨results, written, spells, _⟩
  rcases Forest.exists_ofText written.read written.expands (spells []) fragment with
    ⟨forest, success, leaves⟩
  refine ⟨forest, success, ?_⟩
  intro leaf
  rw [leaves, written.gives]

/-- The import block of merged texts can be read, and merging what it says any number of times gives
the merged set back. -/
theorem merge_replicate_ofText_text_sections
    (read : ∀ forest ∈ forests, ∃ text number, Forest.ofText text number = .ok forest)
    (success : merge forests absorbByRename = .ok merged) (config : Config)
    (fragment : Option Int) {copies : Nat} (some : 0 < copies) :
    ∃ forest, Forest.ofText (merged.sections config).text fragment = .ok forest ∧
      ∃ again, merge (List.replicate copies forest) absorbByRename = .ok again ∧
        again.same merged = true := by
  have legal := legal_of_merge read success
  rcases exists_ofText_text_sections (fun leaf member => (legal leaf member).1) config fragment with
    ⟨forest, parsed, leaves⟩
  refine ⟨forest, parsed, exists_merge_of_imports success ?_⟩
  intro leaf
  rw [Forest.imports, List.mem_flatMap, ← leaves]
  constructor
  · intro imported
    rcases imported with ⟨copy, member, found⟩
    rw [(List.mem_replicate.mp member).2] at found
    rcases List.mem_map.mp found with ⟨original, lies, rfl⟩
    rw [(legal original ((leaves original).mp lies)).2]
    exact lies
  · intro lies
    refine ⟨forest, List.mem_replicate.mpr ⟨by omega, rfl⟩, List.mem_map.mpr ⟨leaf, lies, ?_⟩⟩
    exact (legal leaf ((leaves leaf).mp lies)).2

theorem merge_replicate_two_fragments :
    ∃ first second merged,
      Forest.ofText "#[cfg( test )] use super::\x7bself, b::*\x7d;" (some 0) = .ok first ∧
      Forest.ofText "pub use ::a::\x7bself, c as d\x7d;" (some 1) = .ok second ∧
      merge [first, second] true = .ok merged ∧
      merged.roots =
        [.leaf ⟨[.name "a"], none, { visibility := "pub", leadingColon := true }⟩,
          .group [.super] [.leaf ⟨[.self], none, { attributes := ["cfg( test )"] }⟩,
            .leaf ⟨[.name "b", .glob], none, { attributes := ["cfg( test )"] }⟩],
          .leaf ⟨[.name "a", .name "c"], some "d", { visibility := "pub", leadingColon := true }⟩] ∧
      (merged.sections .default).text =
        "pub use ::a;\npub use ::a::c as d;\n\n#[cfg( test )]\nuse super::\x7bself\x7d;\n" ++
          "#[cfg( test )]\nuse super::b::*;" ∧
      ∃ forest, Forest.ofText (merged.sections .default).text (some 0) = .ok forest ∧
        ∃ again, merge (List.replicate 2 forest) true = .ok again ∧
          again.same merged = true := by
  let gated : Metadata := { attributes := ["cfg( test )"] }
  let exported : Metadata := { visibility := "pub", leadingColon := true }
  have first : Forest.ofText "#[cfg( test )] use super::\x7bself, b::*\x7d;" (some 0) =
      .ok ⟨0, [.group [.super] [.leaf ⟨[.self], none, gated⟩,
        .leaf ⟨[.name "b", .glob], none, gated⟩]]⟩ := by cbv
  have second : Forest.ofText "pub use ::a::\x7bself, c as d\x7d;" (some 1) =
      .ok ⟨1, [.group [.name "a"] [.leaf ⟨[.self], none, exported⟩,
        .leaf ⟨[.name "c"], some "d", exported⟩]]⟩ := by cbv
  have success : merge
      [⟨0, [.group [.super] [.leaf ⟨[.self], none, gated⟩,
          .leaf ⟨[.name "b", .glob], none, gated⟩]]⟩,
        ⟨1, [.group [.name "a"] [.leaf ⟨[.self], none, exported⟩,
          .leaf ⟨[.name "c"], some "d", exported⟩]]⟩] true =
      .ok ⟨[.leaf ⟨[.name "a"], none, exported⟩,
        .group [.super] [.leaf ⟨[.self], none, gated⟩, .leaf ⟨[.name "b", .glob], none, gated⟩],
        .leaf ⟨[.name "a", .name "c"], some "d", exported⟩]⟩ := by cbv
  refine ⟨_, _, _, first, second, success, rfl, by cbv, ?_⟩
  refine merge_replicate_ofText_text_sections ?_ success .default (some 0) (by decide)
  intro forest member
  rcases List.mem_cons.mp member with rfl | last
  · exact ⟨_, _, first⟩
  · rw [List.mem_singleton.mp last]
    exact ⟨_, _, second⟩

end MergedSet

end ImportBlock
