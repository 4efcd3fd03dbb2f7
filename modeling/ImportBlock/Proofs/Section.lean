import ImportBlock.Section
import ImportBlock.Proofs.UseItem

/-! The text of an import block is read as its use items, each of them once. -/

namespace ImportBlock

theorem Text.fills_intercalate {α : Type} {separator : String}
    (blank : separator.toList.all isBlank = true) {text : α → String}
    {spelled : α → List Word} {items : List α} (nonempty : items ≠ [])
    (each : ∀ item ∈ items, ∀ rest, Fills (text item).toList (spelled item) rest) :
    ∀ rest, Fills (separator.intercalate (items.map text)).toList (items.flatMap spelled) rest := by
  induction items with
  | nil => exact absurd rfl nonempty
  | cons item others induction =>
      intro rest
      have parts := List.forall_mem_cons.mp each
      cases others with
      | nil =>
          rw [List.map_singleton, String.intercalate_singleton, List.flatMap_singleton]
          exact parts.1 rest
      | cons next behind =>
          have later := induction (List.cons_ne_nil _ _) parts.2 rest
          have whole := (parts.1 _).join (spells_blanks (List.all_eq_true.mp blank) _) later
          rw [List.map_cons, String.intercalate_cons_of_ne_nil (by simp), String.toList_append,
            String.toList_append, List.append_assoc, List.flatMap_cons]
          exact whole

namespace Sections

variable (config : Config) (items : List UseItem)

def itemBlocks : List (List UseItem) :=
  (Section.all.map fun name => items.filter fun item =>
    Section.ofTree config.coreNames config.ownNames item.tree = name).filter fun block =>
      !block.isEmpty

theorem get_ofItems (name : Section) :
    (ofItems config items).get name = (items.filter fun item =>
      Section.ofTree config.coreNames config.ownNames item.tree = name).map (·.text) := by
  cases name <;> rfl

theorem blocks_ofItems :
    (ofItems config items).blocks =
      (itemBlocks config items).map fun block => "\n".intercalate (block.map (·.text)) := by
  let parts := Section.all.map fun name => items.filter fun item =>
    Section.ofTree config.coreNames config.ownNames item.tree = name
  have texts : Section.all.map (ofItems config items).get =
      parts.map fun block => block.map (·.text) := by
    rw [List.map_map]
    apply List.map_congr_left
    intro name _
    exact get_ofItems config items name
  have nonempty : (fun block : List UseItem => !(block.map (·.text)).isEmpty) =
      fun block => !block.isEmpty := by
    funext block
    rw [List.isEmpty_map]
  rw [blocks, texts, List.filter_map, List.map_map]
  change (parts.filter fun block => !(block.map (·.text)).isEmpty).map _ = _
  rw [nonempty]
  rfl

theorem mem_flatten_itemBlocks {item : UseItem} :
    item ∈ (itemBlocks config items).flatten ↔ item ∈ items := by
  have all : ∀ name : Section, name ∈ Section.all := by
    intro name
    cases name <;> decide
  rw [List.mem_flatten]
  constructor
  · intro found
    rcases found with ⟨block, member, inside⟩
    rcases List.mem_map.mp (List.mem_filter.mp member).1 with ⟨name, _, rfl⟩
    exact (List.mem_filter.mp inside).1
  · intro member
    let name := Section.ofTree config.coreNames config.ownNames item.tree
    have inside : item ∈ items.filter fun item =>
        Section.ofTree config.coreNames config.ownNames item.tree = name :=
      List.mem_filter.mpr ⟨member, by simp [name]⟩
    refine ⟨_, List.mem_filter.mpr ⟨List.mem_map_of_mem (all name), ?_⟩, inside⟩
    rw [Bool.not_eq_true', List.isEmpty_eq_false_iff]
    exact List.ne_nil_of_mem inside

variable {config items}

theorem ne_nil_of_mem_itemBlocks {block : List UseItem} (member : block ∈ itemBlocks config items) :
    block ≠ [] := by
  have nonempty := (List.mem_filter.mp member).2
  rwa [Bool.not_eq_true', List.isEmpty_eq_false_iff] at nonempty

/-- The text of a block is read as its items, section by section, and they fill it. -/
theorem fills_text {written : UseItem → WrittenItem}
    (each : ∀ item ∈ items, item.IsWrittenAs (written item)) (nonempty : items ≠ [])
    (rest : List Char) :
    Text.Fills (ofItems config items).text.toList
      (((itemBlocks config items).flatten.map written).flatMap WrittenItem.words) rest := by
  have blank : "\n".toList.all Text.isBlank = true := by decide
  have blanks : "\n\n".toList.all Text.isBlank = true := by decide
  have texts : ∀ block ∈ itemBlocks config items, ∀ item ∈ block, ∀ rest,
      Text.Fills item.text.toList (written item).words rest := by
    intro block blockMember item member rest
    have found := (mem_flatten_itemBlocks config items).mp
      (List.mem_flatten.mpr ⟨block, blockMember, member⟩)
    rw [(each item found).text]
    exact WrittenItem.fills_source (each item found).read rest
  have lines := fun block blockMember =>
    Text.fills_intercalate blank (ne_nil_of_mem_itemBlocks blockMember) (texts block blockMember)
  have blocks : itemBlocks config items ≠ [] := by
    intro none
    rcases List.exists_mem_of_ne_nil items nonempty with ⟨item, member⟩
    have found := (mem_flatten_itemBlocks config items).mpr member
    rw [none] at found
    cases found
  have whole := Text.fills_intercalate blanks blocks lines rest
  rw [text, blocks_ofItems, List.flatMap_map, List.flatten_eq_flatMap, List.flatMap_assoc]
  exact whole

theorem text_ofItems_nil : (ofItems config []).text = "" := rfl

theorem spells_text {written : UseItem → WrittenItem}
    (each : ∀ item ∈ items, item.IsWrittenAs (written item)) (rest : List Char) :
    Text.Spells (ofItems config items).text.toList
      (((itemBlocks config items).flatten.map written).flatMap WrittenItem.words) rest := by
  by_cases nonempty : items = []
  · rw [nonempty]
    exact .nil rest
  · exact (fills_text each nonempty rest).spells

end Sections

end ImportBlock
