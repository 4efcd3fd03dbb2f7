import ImportBlock.Proofs.Statement.Derivation
import ImportBlock.Proofs.UseTree

/-! Use items that can be written down. The text of an item is read as its words, and whatever is read
from a text can be written again. -/

namespace ImportBlock

open ItemPhrase (attributeWords colonWords)

def Visibility.IsRead : Visibility → Prop
  | .inherited | .exported => True
  | .within word => Identifier.isPathKeyword word = true
  | .inPath segments => segments ≠ [] ∧ ∀ segment ∈ segments, Identifier.IsWord segment.toList

structure Metadata.IsRead (metadata : Metadata) : Prop where
  visibility : ∃ visibility : Visibility, visibility.IsRead ∧ metadata.visibility = visibility.text
  attributes : ∀ body ∈ metadata.attributes, IsAttribute body

structure WrittenItem where
  visibility : Visibility
  attributes : List String
  leadingColon : Bool
  tree : UseTree

namespace WrittenItem

instance : Inhabited WrittenItem := ⟨⟨.inherited, [], false, .glob⟩⟩

def metadata (item : WrittenItem) : Metadata :=
  { visibility := item.visibility.text, attributes := item.attributes,
    leadingColon := item.leadingColon }

structure IsRead (item : WrittenItem) : Prop where
  visibility : item.visibility.IsRead
  attributes : ∀ body ∈ item.attributes, Metadata.IsAttribute body
  tree : item.tree.IsRead

theorem exists_of_isRead {metadata : Metadata} {tree : UseTree} (read : metadata.IsRead)
    (treeRead : tree.IsRead) :
    ∃ item : WrittenItem, item.IsRead ∧ item.metadata = metadata ∧ item.tree = tree := by
  rcases metadata with ⟨text, attributes, leadingColon⟩
  rcases read with ⟨⟨visibility, visible, rfl⟩, written⟩
  exact ⟨⟨visibility, attributes, leadingColon, tree⟩, ⟨visible, written, treeRead⟩, rfl, rfl⟩

def words (item : WrittenItem) : List Word :=
  attributeWords item.attributes ++ (item.visibility.words ++ ⟨.identifier, "use"⟩ ::
    (colonWords item.leadingColon ++ (item.tree.words ++ [⟨.semicolon, ";"⟩])))

end WrittenItem

/-! ## Derivations of written items -/

namespace UseTree

mutual
theorem exists_phrase : ∀ {tree : UseTree}, tree.IsRead →
    ∃ phrase : TreePhrase, phrase.tree = tree ∧ phrase.words = tree.words
  | .name word, _ => ⟨.name word, rfl, rfl⟩
  | .rename word target, _ => ⟨.rename word target, rfl, rfl⟩
  | .glob, _ => ⟨.glob, rfl, rfl⟩
  | .path word rest, read => by
      rcases exists_phrase read.2 with ⟨phrase, rfl, words⟩
      exact ⟨.path word phrase, rfl, by rw [TreePhrase.words, words]; rfl⟩
  | .group [], _ => ⟨.emptyGroup, rfl, rfl⟩
  | .group (tree :: rest), read => by
      rcases exists_listPhrase read (List.cons_ne_nil _ _) with ⟨items, trees, words⟩
      refine ⟨.group items, ?_, ?_⟩
      · rw [TreePhrase.tree, trees]
      · rw [TreePhrase.words, words]
        rfl
  | .foreign _, read => read.elim

theorem exists_listPhrase : ∀ {items : List UseTree}, AllRead items → items ≠ [] →
    ∃ phrase : ListPhrase, phrase.trees = items ∧ phrase.words = listWords items
  | [], _, nonempty => absurd rfl nonempty
  | [tree], read, _ => by
      rcases exists_phrase read.1 with ⟨phrase, rfl, words⟩
      refine ⟨.last phrase false, rfl, ?_⟩
      rw [ListPhrase.words, words]
      exact List.append_nil _
  | tree :: next :: rest, read, _ => by
      rcases exists_phrase read.1 with ⟨phrase, rfl, words⟩
      rcases exists_listPhrase read.2 (List.cons_ne_nil _ _) with ⟨items, trees, others⟩
      refine ⟨.more phrase items, ?_, ?_⟩
      · rw [ListPhrase.trees, trees]
      · rw [ListPhrase.words, words, others]
        rfl
end

end UseTree

namespace WrittenItem

theorem isFormed_of_isRead {visibility : Visibility} (read : visibility.IsRead) :
    visibility.IsFormed := by
  cases visibility with
  | inPath segments => exact read.1
  | _ => exact read

theorem exists_phrase {item : WrittenItem} (read : item.IsRead) :
    ∃ phrase : ItemPhrase, phrase.IsFormed ∧ phrase.content = (item.metadata, item.tree) ∧
      phrase.words = item.words := by
  rcases UseTree.exists_phrase read.tree with ⟨tree, same, words⟩
  refine ⟨⟨item.attributes, item.visibility, item.leadingColon, tree⟩,
    isFormed_of_isRead read.visibility, ?_, ?_⟩
  · rw [ItemPhrase.content, same]
    rfl
  · rw [ItemPhrase.words, words]
    rfl

theorem exists_phrases {items : List WrittenItem} (read : ∀ item ∈ items, item.IsRead) :
    ∃ phrases : List ItemPhrase, (∀ phrase ∈ phrases, phrase.IsFormed) ∧
      phrases.map ItemPhrase.content = items.map (fun item => (item.metadata, item.tree)) ∧
        phrases.flatMap ItemPhrase.words = items.flatMap words := by
  induction items with
  | nil => exact ⟨[], nofun, rfl, rfl⟩
  | cons item rest induction =>
      have parts := List.forall_mem_cons.mp read
      rcases exists_phrase parts.1 with ⟨phrase, formed, content, words⟩
      rcases induction parts.2 with ⟨phrases, allFormed, contents, others⟩
      refine ⟨phrase :: phrases, List.forall_mem_cons.mpr ⟨formed, allFormed⟩, ?_, ?_⟩
      · rw [List.map_cons, content, contents, List.map_cons]
      · rw [List.flatMap_cons, words, others, List.flatMap_cons]

end WrittenItem

/-! ## Spelling -/

namespace Visibility

theorem spells_pathWords : ∀ {segments : List String},
    (∀ segment ∈ segments, Identifier.IsWord segment.toList) → ∀ rest : List Char,
      Text.Spells ("::".intercalate segments).toList (pathWords segments) (')' :: rest)
  | [], _, _ => .nil _
  | [segment], words, rest => by
      rw [String.intercalate_singleton]
      exact Text.spells_word (words segment List.mem_cons_self) ')' (by decide) rest
  | segment :: next :: others, words, rest => by
      have last := spells_pathWords (fun segment member =>
        words segment (List.mem_cons_of_mem _ member)) rest
      have middle := (Text.spells_pathSeparator _).append last
      have first : Text.Spells segment.toList [⟨.identifier, segment⟩]
          ("::".toList ++ ("::".intercalate (next :: others)).toList ++ ')' :: rest) :=
        Text.spells_word (words segment List.mem_cons_self) ':' (by decide) _
      have whole := first.append middle
      rw [String.intercalate_cons_cons, String.toList_append, String.toList_append,
        List.append_assoc]
      exact whole

theorem isWord_of_isPathKeyword {word : String} (keyword : Identifier.isPathKeyword word = true) :
    Identifier.IsWord word.toList := by
  simp only [Identifier.isPathKeyword, Bool.or_eq_true, beq_iff_eq] at keyword
  rcases keyword with (rfl | rfl) | rfl <;> decide

theorem spells_opening (rest : List Char) :
    Text.Spells "pub(".toList [⟨.identifier, "pub"⟩, ⟨.openParenthesis, "("⟩] rest := by
  have word : Text.Spells "pub".toList [⟨.identifier, "pub"⟩] ('(' :: rest) :=
    Text.spells_word (by decide) '(' (by decide) rest
  exact word.append (@Text.spells_mark '(' (by decide) rest)

theorem spells_closing (rest : List Char) :
    Text.Spells ")".toList [⟨.closeParenthesis, ")"⟩] rest :=
  @Text.spells_mark ')' (by decide) rest

theorem spells_text {visibility : Visibility} (read : visibility.IsRead) (rest : List Char) :
    Text.Spells visibility.text.toList visibility.words (' ' :: rest) := by
  cases visibility with
  | inherited => exact .nil _
  | exported => exact Text.spells_word (by decide) ' ' (by decide) rest
  | within word =>
      have last := (Text.spells_word (isWord_of_isPathKeyword read) ')' (by decide)
        (' ' :: rest)).append (spells_closing (' ' :: rest))
      rw [text, String.toList_append, String.toList_append, List.append_assoc]
      exact (spells_opening _).append last
  | inPath segments =>
      have path := (spells_pathWords read.2 (' ' :: rest)).append (spells_closing (' ' :: rest))
      have last := (@Text.spells_spaced "in" (by decide) _).append path
      rw [text, String.toList_append, String.toList_append, List.append_assoc]
      exact (spells_opening _).append last

theorem text_eq_empty_iff (visibility : Visibility) :
    visibility.text = "" ↔ visibility = .inherited := by
  cases visibility <;> simp [text]

theorem spells_lead {visibility : Visibility} (read : visibility.IsRead) (rest : List Char) :
    Text.Spells (if visibility.text = "" then "" else visibility.text ++ " ").toList
      visibility.words rest := by
  have whole := (spells_text read rest).append (Text.spells_space rest)
  by_cases inherited : visibility = .inherited
  · rw [if_pos ((text_eq_empty_iff visibility).mpr inherited), inherited]
    exact .nil rest
  · rw [if_neg fun equal => inherited ((text_eq_empty_iff visibility).mp equal),
      String.toList_append]
    rwa [List.append_nil] at whole

end Visibility

namespace WrittenItem

def source (item : WrittenItem) : String :=
  let text := item.visibility.text
  let visibility := if text = "" then "" else text ++ " "
  let colons := if item.leadingColon then "::" else ""
  let line := visibility ++ "use " ++ colons ++ item.tree.source ++ ";"
  "\n".intercalate (item.attributes.map Metadata.bracketed ++ [line])

theorem spells_line {item : WrittenItem} (read : item.IsRead) (rest : List Char) :
    Text.Spells ((if item.visibility.text = "" then "" else item.visibility.text ++ " ") ++
        "use " ++ (if item.leadingColon then "::" else "") ++ item.tree.source).toList
      (item.visibility.words ++ ⟨.identifier, "use"⟩ ::
        (colonWords item.leadingColon ++ item.tree.words)) (';' :: rest) := by
  have body : Text.Spells item.tree.source.toList item.tree.words (';' :: rest) :=
    UseTree.spells_source read.tree (Identifier.ends_cons (by decide) rest)
  have colons : ∀ rest, Text.Spells (if item.leadingColon then "::" else "").toList
      (colonWords item.leadingColon) rest := by
    intro rest
    cases item.leadingColon with
    | true => exact Text.spells_pathSeparator rest
    | false => exact .nil rest
  have keyword : ∀ rest, Text.Spells "use ".toList [⟨.identifier, "use"⟩] rest :=
    @Text.spells_spaced "use" (by decide)
  have back := (keyword _).append ((colons (item.tree.source.toList ++ ';' :: rest)).append body)
  have whole := (Visibility.spells_lead read.visibility _).append back
  simpa only [String.toList_append, List.append_assoc, List.singleton_append] using whole

theorem exists_line_eq_cons (visibility : Visibility) (behind : String) :
    ∃ c body, ((if visibility.text = "" then "" else visibility.text ++ " ") ++ "use " ++
      behind).toList = c :: body ∧ Text.isBlank c = false ∧ c ≠ '/' := by
  have letters : (Text.isBlank 'p' = false ∧ 'p' ≠ '/') ∧ Text.isBlank 'u' = false ∧ 'u' ≠ '/' := by
    decide
  cases visibility with
  | inherited =>
      rw [if_pos (by rfl)]
      simp only [String.toList_append]
      exact ⟨'u', _, rfl, letters.2⟩
  | _ =>
      rw [if_neg (by simp [Visibility.text])]
      simp only [Visibility.text, String.toList_append]
      exact ⟨'p', _, rfl, letters.1⟩

theorem fills_line {item : WrittenItem} (read : item.IsRead) (rest : List Char) :
    Text.Fills ((if item.visibility.text = "" then "" else item.visibility.text ++ " ") ++
        "use " ++ (if item.leadingColon then "::" else "") ++ item.tree.source ++ ";").toList
      (item.visibility.words ++ ⟨.identifier, "use"⟩ ::
        (colonWords item.leadingColon ++ item.tree.words) ++ [⟨.semicolon, ";"⟩]) rest := by
  have spells := spells_line read rest
  rcases exists_line_eq_cons item.visibility
    ((if item.leadingColon then "::" else "") ++ item.tree.source) with
      ⟨c, body, equal, visible, noSlash⟩
  rw [← String.append_assoc] at equal
  rw [equal] at spells
  rw [String.toList_append, equal]
  exact Text.fills_of_spells visible noSlash spells

theorem fills_lines {line : String} {spelled : List Word} {attributes : List String}
    (written : ∀ body ∈ attributes, Metadata.IsAttribute body)
    (last : ∀ rest, Text.Fills line.toList spelled rest) (rest : List Char) :
    Text.Fills ("\n".intercalate (attributes.map Metadata.bracketed ++ [line])).toList
      (attributeWords attributes ++ spelled) rest := by
  induction attributes with
  | nil => exact last rest
  | cons body others induction =>
      have behind := induction fun body member => written body (List.mem_cons_of_mem _ member)
      have first := Metadata.fills_bracketed (written body List.mem_cons_self)
      have feed : ∀ rest, Text.Spells "\n".toList [] rest := Text.spells_blank (by decide)
      have whole := (first _).join (feed _) behind
      rw [List.map_cons, List.cons_append,
        String.intercalate_cons_of_ne_nil (by simp), String.toList_append, String.toList_append,
        List.append_assoc]
      exact whole

theorem fills_source {item : WrittenItem} (read : item.IsRead) (rest : List Char) :
    Text.Fills item.source.toList item.words rest := by
  have whole := fills_lines read.attributes (fills_line read) rest
  simpa only [source, words, List.append_assoc, List.cons_append] using whole

end WrittenItem

/-! ## What is read -/

mutual
/-- A tree that is made of words of a text can be written. -/
theorem TreePhrase.isRead : ∀ {phrase : TreePhrase}, (∀ word ∈ phrase.words, word.IsRead) →
    phrase.tree.IsRead
  | .name word, read => (read _ List.mem_cons_self).isWord rfl
  | .rename word target, read =>
      ⟨(read ⟨.identifier, word⟩ (by simp [TreePhrase.words])).isWord rfl,
        (read ⟨.identifier, target⟩ (by simp [TreePhrase.words])).isWord rfl⟩
  | .glob, _ => trivial
  | .path word rest, read => by
      refine ⟨(read ⟨.identifier, word⟩ (by simp [TreePhrase.words])).isWord rfl, ?_⟩
      exact TreePhrase.isRead (List.forall_mem_append.mp read).2
  | .emptyGroup, _ => trivial
  | .group items, read =>
      ListPhrase.allRead (List.forall_mem_append.mp (List.forall_mem_append.mp read).1).2

theorem ListPhrase.allRead : ∀ {phrase : ListPhrase}, (∀ word ∈ phrase.words, word.IsRead) →
    UseTree.AllRead phrase.trees
  | .last item _, read => ⟨TreePhrase.isRead (List.forall_mem_append.mp read).1, trivial⟩
  | .more item rest, read => by
      have parts := List.forall_mem_append.mp read
      exact ⟨TreePhrase.isRead (List.forall_mem_append.mp parts.1).1, ListPhrase.allRead parts.2⟩
end

theorem Visibility.mem_pathWords {segments : List String} {segment : String}
    (member : segment ∈ segments) : ⟨.identifier, segment⟩ ∈ pathWords segments := by
  induction segments with
  | nil => cases member
  | cons first rest induction =>
      cases rest with
      | nil =>
          rw [List.mem_singleton.mp member]
          exact List.mem_singleton_self _
      | cons next others =>
          rcases List.mem_cons.mp member with rfl | inside
          · exact List.mem_cons_self
          · exact List.mem_append_right _ (induction inside)

theorem Visibility.isRead {visibility : Visibility} (formed : visibility.IsFormed)
    (read : ∀ word ∈ visibility.words, word.IsRead) : visibility.IsRead := by
  cases visibility with
  | inPath segments =>
      refine ⟨formed, fun segment member => ?_⟩
      have inside : ⟨.identifier, segment⟩ ∈ (inPath segments).words := by
        simp [words, scopeWords, mem_pathWords member]
      exact (read _ inside).isWord rfl
  | _ => exact formed

theorem ItemPhrase.isRead {item : ItemPhrase} (formed : item.IsFormed)
    (read : ∀ word ∈ item.words, word.IsRead) : item.metadata.IsRead ∧ item.tree.tree.IsRead := by
  simp only [words, List.forall_mem_append, List.forall_mem_cons] at read
  rcases read with ⟨attributes, visibility, _, _, tree, _⟩
  refine ⟨⟨⟨item.visibility, Visibility.isRead formed visibility, rfl⟩, ?_⟩, TreePhrase.isRead tree⟩
  intro body member
  exact (attributes ⟨.attribute, body⟩ (List.mem_map_of_mem member)).isAttribute rfl

namespace Statement

theorem isRead_of_contents {statements : List Statement} {items : List ItemPhrase}
    (formed : ∀ item ∈ items, item.IsFormed)
    (contents : statements.map content = items.map ItemPhrase.content)
    (read : ∀ word ∈ items.flatMap ItemPhrase.words, word.IsRead) :
    ∀ statement ∈ statements, statement.metadata.IsRead ∧ statement.tree.IsRead := by
  intro statement member
  have given : statement.content ∈ items.map ItemPhrase.content :=
    contents ▸ List.mem_map_of_mem member
  rcases List.mem_map.mp given with ⟨item, inside, equal⟩
  have itemRead := item.isRead (formed item inside) ?_
  · rw [ItemPhrase.content, content, Prod.mk.injEq] at equal
    rwa [equal.1, equal.2] at itemRead
  · intro word lies
    exact read word (List.mem_flatMap.mpr ⟨item, inside, lies⟩)

theorem isRead_parse {text : String} {fragment : Option Int} {statements : List Statement}
    (success : parse text fragment = .ok statements) :
    ∀ statement ∈ statements, statement.metadata.IsRead ∧ statement.tree.IsRead := by
  rcases exists_derives_of_parse success with ⟨items, derives, contents⟩
  apply isRead_of_contents derives.formed contents
  intro word member
  rw [← derives.tokens] at member
  rcases List.mem_map.mp member with ⟨token, inside, rfl⟩
  exact TokenStream.isRead_of_mem_tokens inside

theorem exists_parse {items : List WrittenItem} (read : ∀ item ∈ items, item.IsRead)
    {text : String} (spells : Text.Spells text.toList (items.flatMap WrittenItem.words) [])
    (fragment : Option Int) :
    ∃ statements, parse text fragment = .ok statements ∧
      statements.map content = items.map fun item => (item.metadata, item.tree) := by
  rcases WrittenItem.exists_phrases read with ⟨phrases, formed, contents, same⟩
  rw [← same] at spells
  rw [← contents]
  exact exists_parse_of_derives (ItemPhrase.derives_of_spells formed spells) fragment

end Statement

end ImportBlock
