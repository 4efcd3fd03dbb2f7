import ImportBlock.Proofs.RoundTrip
import ImportBlock.Proofs.Text.Paragraph
import ImportBlock.Report
import Mathlib

/-! Assembling a block of sections and assembling a list of items. The sections spread the items of
the list, and the text of the block falls into its sections where it is cut at the empty lines: no
text of an item has an empty line in it. -/

namespace ImportBlock

/-! ## Lines of items -/

theorem not_mem_intercalate {c : Char} {separator : String} (apart : c ∉ separator.toList)
    {texts : List String} (each : ∀ text ∈ texts, c ∉ text.toList) :
    c ∉ (separator.intercalate texts).toList := by
  induction texts with
  | nil => simp
  | cons text rest induction =>
      have parts := List.forall_mem_cons.mp each
      cases rest with
      | nil => simpa using parts.1
      | cons next others =>
          rw [String.intercalate_cons_cons, String.toList_append, String.toList_append]
          simp only [List.mem_append, not_or]
          exact ⟨⟨parts.1, apart⟩, induction parts.2⟩

theorem Metadata.line_feed_not_mem {body : String} (written : IsAttribute body) :
    '\n' ∉ body.toList := by
  intro member
  rw [← written.2] at member
  have space := Text.eq_space_of_mem_collapse (by decide) member
  revert space
  decide

theorem Visibility.line_feed_not_mem {visibility : Visibility} (read : visibility.IsRead) :
    '\n' ∉ visibility.text.toList := by
  cases visibility with
  | inherited => decide
  | exported => decide
  | within word =>
      have inner := Identifier.line_feed_not_mem (isWord_of_isPathKeyword read)
      simp [text, inner]
  | inPath segments =>
      have inner := @not_mem_intercalate '\n' "::" (by decide) segments fun segment member =>
        Identifier.line_feed_not_mem (read.2 segment member)
      simp only [text, String.toList_append, List.mem_append, not_or]
      exact ⟨⟨by decide, inner⟩, by decide⟩

namespace UseTree

mutual
theorem line_feed_not_mem : ∀ {tree : UseTree}, tree.IsRead → '\n' ∉ tree.source.toList
  | .name _, read => Identifier.line_feed_not_mem read
  | .rename _ _, read => by
      simp only [source, String.toList_append, List.mem_append, not_or]
      exact ⟨⟨Identifier.line_feed_not_mem read.1, by decide⟩, Identifier.line_feed_not_mem read.2⟩
  | .glob, _ => by decide
  | .path _ _, read => by
      simp only [source, String.toList_append, List.mem_append, not_or]
      exact ⟨⟨Identifier.line_feed_not_mem read.1, by decide⟩, line_feed_not_mem read.2⟩
  | .group items, read => by
      have inner := @not_mem_intercalate '\n' ", " (by decide) (sources items)
        (line_feed_not_mem_sources read)
      simp only [source, String.toList_append, List.mem_append, not_or]
      exact ⟨⟨by decide, inner⟩, by decide⟩
  | .foreign _, read => read.elim

theorem line_feed_not_mem_sources : ∀ {items : List UseTree}, AllRead items →
    ∀ text ∈ sources items, '\n' ∉ text.toList
  | [], _, _, member => absurd member List.not_mem_nil
  | _ :: _, read, _, member => by
      rcases List.mem_cons.mp member with rfl | inside
      · exact line_feed_not_mem read.1
      · exact line_feed_not_mem_sources read.2 _ inside
end

end UseTree

theorem WrittenItem.isParagraph_source {item : WrittenItem} (read : item.IsRead) :
    Text.IsParagraph item.source.toList := by
  rw [source, String.toList_intercalate]
  refine Text.IsParagraph.intercalate (by simp) ?_
  intro text member
  rcases List.mem_map.mp member with ⟨line, inside, rfl⟩
  rcases List.mem_append.mp inside with bracketed | last
  · rcases List.mem_map.mp bracketed with ⟨body, written, rfl⟩
    have inner := Metadata.line_feed_not_mem (read.attributes body written)
    refine .line ?_ ?_
    · simp [Metadata.bracketed]
    · simp [Metadata.bracketed, inner]
  · have visible := Visibility.line_feed_not_mem read.visibility
    have tree := UseTree.line_feed_not_mem read.tree
    rw [List.mem_singleton.mp last]
    refine .line ?_ ?_
    · simp
    · simp only [String.toList_append, List.mem_append, not_or]
      refine ⟨⟨⟨⟨?_, by decide⟩, ?_⟩, tree⟩, by decide⟩
      · split
        · decide
        · simp [visible]
      · split <;> decide

/-! ## Sections by leaves -/

/-- Whether all leaves of an item belong to a section by their first segments. -/
def UseItem.standsIn (config : Config) (item : UseItem) (name : Section) : Bool :=
  item.leaves.all fun leaf =>
    leaf.path.head?.any fun root => Section.ofRoot config.coreNames config.ownNames root = name

theorem UseItem.standsIn_iff {config : Config} {item : UseItem} (regular : item.tree.Regular)
    {name : Section} : item.standsIn config name = true ↔
      Section.ofTree config.coreNames config.ownNames item.tree = name := by
  rcases regular.exists_root with ⟨root, found, starts⟩
  rw [standsIn, leaves, List.all_map, List.all_eq_true, Section.ofTree, found, Option.elim_some]
  constructor
  · intro each
    rcases regular.exists_leaf with ⟨leaf, member, _⟩
    simpa [starts leaf member] using each leaf member
  · intro equal leaf member
    simpa [starts leaf member] using equal

namespace Sections

variable {config : Config} {items : List UseItem}

theorem get_ofItems_eq_standsIn (regular : ∀ item ∈ items, item.tree.Regular) (name : Section) :
    (ofItems config items).get name =
      (items.filter fun item => item.standsIn config name).map (·.text) := by
  rw [get_ofItems]
  congr 1
  apply List.filter_congr
  intro item member
  rw [Bool.eq_iff_iff, UseItem.standsIn_iff (regular item member), decide_eq_true_iff]

theorem paragraphs_text (each : ∀ item ∈ items, Text.IsParagraph item.text.toList)
    (nonempty : (ofItems config items).text ≠ "") :
    Text.paragraphs (ofItems config items).text.toList =
      (ofItems config items).blocks.map String.toList := by
  have blocks : (ofItems config items).blocks ≠ [] := by
    intro none
    rw [text, none] at nonempty
    exact nonempty rfl
  rw [text, String.toList_intercalate]
  refine Text.paragraphs_intercalate (by simpa using blocks) ?_
  intro block member
  rw [blocks_ofItems, List.map_map] at member
  rcases List.mem_map.mp member with ⟨group, inside, rfl⟩
  rw [Function.comp, String.toList_intercalate]
  refine Text.IsParagraph.intercalate (by simpa using ne_nil_of_mem_itemBlocks inside) ?_
  simp only [List.map_map, List.forall_mem_map]
  intro item lies
  exact each item ((mem_flatten_itemBlocks config items).mp (List.mem_flatten.mpr
    ⟨group, inside, lies⟩))

end Sections

/-! ## Sources -/

theorem exists_of_mem_mapM {α β ε : Type} {f : α → Except ε β} {items : List α} {results : List β}
    (success : items.mapM f = .ok results) :
    ∀ result ∈ results, ∃ item ∈ items, f item = .ok result := by
  induction items generalizing results with
  | nil =>
      cases success
      intro result member
      cases member
  | cons item rest induction =>
      rw [List.mapM_cons] at success
      rcases exists_of_bind_eq_ok success with ⟨first, found, success⟩
      rcases exists_of_bind_eq_ok success with ⟨others, later, equal⟩
      cases equal
      intro result member
      rcases List.mem_cons.mp member with rfl | inside
      · exact ⟨item, List.mem_cons_self, found⟩
      · rcases induction later result inside with ⟨other, lies, equal⟩
        exact ⟨other, List.mem_cons_of_mem _ lies, equal⟩

namespace Assembly

theorem exists_of_merge {assembly : Assembly} {merged : MergedSet}
    (success : assembly.merge = .ok merged) :
    ∃ forests, assembly.forests = .ok forests ∧
      MergedSet.merge forests assembly.config.absorbUnaliased = .ok merged := by
  unfold merge at success
  split at success
  · cases success
  · next forests formed =>
      split at success
      · cases success
      · next result merging =>
          cases success
          exact ⟨forests, formed, merging⟩

theorem reports_of_merge_eq_error {assembly : Assembly} {error : ImportError}
    (failed : assembly.merge = .error error) :
    assembly.build = .ofFailure "build" error ∧
      assembly.intoItems = .ofFailure "into_items" error := by
  rw [build, intoItems, failed]
  exact ⟨rfl, rfl⟩

def ofSources (config : Config) (sources : List String) : Assembly := ⟨config, sources.map .text⟩

variable {config : Config} {sources : List String} {merged : MergedSet}

theorem legal_of_merge (success : (ofSources config sources).merge = .ok merged) :
    ∀ leaf ∈ merged.leaves, leaf.Legal ∧ leaf.metadata.IsRead := by
  rcases exists_of_merge success with ⟨forests, formed, succeeded⟩
  refine fun leaf member => (MergedSet.legal_of_merge ?_ succeeded leaf member).1
  intro forest inside
  rcases exists_of_mem_mapM formed forest inside with ⟨⟨fragment, number⟩, lies, equal⟩
  rcases List.mem_map.mp (List.fst_mem_of_mem_zipIdx lies) with ⟨source, _, rfl⟩
  exact ⟨source, some number, equal⟩

/-- Sources that cannot be merged are refused for one reason, whatever is assembled from them. From
others, the sections spread the items of the list in their order: each item stands in the one section
that all its leaves belong to. -/
theorem build_intoItems (config : Config) (sources : List String) :
    (∃ error, (ofSources config sources).merge = .error error ∧
      (ofSources config sources).build = .ofFailure "build" error ∧
      (ofSources config sources).intoItems = .ofFailure "into_items" error) ∨
    ∃ (merged : MergedSet) (sections : Sections), (ofSources config sources).merge = .ok merged ∧
      (ofSources config sources).build.failure = none ∧
      (ofSources config sources).build.payload = some (.sections sections) ∧
      (ofSources config sources).intoItems.failure = none ∧
      (ofSources config sources).intoItems.payload =
        some (.items ((merged.items config.granularity).map (·.text))) ∧
      (∀ name, sections.get name = ((merged.items config.granularity).filter fun item =>
        item.standsIn config name).map (·.text)) ∧
      (∀ item ∈ merged.items config.granularity, ∃! name, item.standsIn config name = true) ∧
      (∀ item ∈ merged.items config.granularity, ∀ line ∈ item.text.toList.splitOn '\n',
        line ≠ []) ∧
      (sections.text ≠ "" → Text.paragraphs sections.text.toList =
        ([sections.core, sections.external, sections.own].filter fun texts => !texts.isEmpty).map
          fun texts => ("\n".intercalate texts).toList) := by
  cases merging : (ofSources config sources).merge with
  | error error =>
      left
      exact ⟨error, rfl, reports_of_merge_eq_error merging⟩
  | ok merged =>
      right
      have legal := legal_of_merge merging
      have regular : ∀ item ∈ merged.items config.granularity, item.tree.Regular :=
        MergedSet.regular_of_mem_items fun leaf member => (legal leaf member).1.path.ne_nil
      have paragraph : ∀ item ∈ merged.items config.granularity,
          Text.IsParagraph item.text.toList := by
        intro item member
        rcases MergedSet.exists_isWrittenAs legal item member with ⟨written, is⟩
        rw [is.text]
        exact WrittenItem.isParagraph_source is.read
      refine ⟨merged, merged.sections config, rfl, ?_, ?_, ?_, ?_,
        Sections.get_ofItems_eq_standsIn regular, ?_,
        fun item member => (paragraph item member).ne_nil_of_mem_splitOn, ?_⟩
      · rw [build, merging]
      · rw [build, merging]
        rfl
      · rw [intoItems, merging]
      · rw [intoItems, merging]
        rfl
      · intro item member
        refine ⟨_, (UseItem.standsIn_iff (regular item member)).mpr rfl, ?_⟩
        intro name stands
        exact ((UseItem.standsIn_iff (regular item member)).mp stands).symm
      · intro nonempty
        rw [MergedSet.sections, Sections.paragraphs_text paragraph nonempty, Sections.blocks,
          List.map_map]
        rfl

/-! Two sections are shown with an empty line between them. -/

example : (ofSources .default ["use b::c;", "use std::d; use b::a;"]).build.payload =
    some (.sections ⟨["use std::d;"], ["use b::\x7ba, c\x7d;"], []⟩) := by cbv

example : Sections.text ⟨["use std::d;"], ["use b::\x7ba, c\x7d;"], []⟩ =
    "use std::d;\n\nuse b::\x7ba, c\x7d;" := by cbv

end Assembly

end ImportBlock
