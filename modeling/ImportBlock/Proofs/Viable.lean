import ImportBlock.Proofs.Statement.Leading
import Mathlib

/-! Words that items can begin with. Whatever words reading has gone over, some more words complete an
item, so that these are words of the grammar. And all words of the grammar that can be read at all are
those of a text: each of them on a line of its own. -/

namespace ImportBlock

open ItemPhrase (attributeWords colonWords)

/-! ## Words as texts -/

namespace Word

theorem isRead_identifier {name : String} (isWord : Identifier.IsWord name.toList) :
    IsRead ⟨.identifier, name⟩ :=
  ⟨fun _ => isWord, nofun, nofun⟩

theorem isRead_mark {kind : TokenKind} {mark : String} (decided : kind.mark? = some mark) :
    IsRead ⟨kind, mark⟩ := by
  refine ⟨?_, ?_, ?_⟩
  · intro identifier
    rw [show kind = .identifier from identifier] at decided
    cases decided
  · intro isAttribute
    rw [show kind = .attribute from isAttribute] at decided
    cases decided
  · intro other equal
    exact Option.some.inj (decided.symm.trans equal)

def IsOfItems (word : Word) : Prop := word.kind ≠ .innerAttribute ∧ word.kind ≠ .other

def source (word : Word) : String :=
  match word.kind with
  | .attribute => Metadata.bracketed word.text
  | _ => word.text

theorem spells_mark {kind : TokenKind} {mark : String} (decided : kind.mark? = some mark)
    (rest : List Char) : Text.Spells mark.toList [⟨kind, mark⟩] rest := by
  cases kind <;> cases decided
  case pathSeparator => exact Text.spells_pathSeparator rest
  all_goals exact Text.spells_mark (by decide) rest

theorem spells_line {word : Word} (read : word.IsRead) (ofItems : word.IsOfItems)
    (rest : List Char) : Text.Spells (word.source.toList ++ ['\n']) [word] rest := by
  have feed : Text.Spells ['\n'] [] rest := Text.spells_blank (by decide) rest
  suffices spells : Text.Spells word.source.toList [word] ('\n' :: rest) from spells.append feed
  rcases word with ⟨kind, text⟩
  cases kind with
  | identifier => exact Text.spells_word (read.isWord rfl) '\n' (by decide) rest
  | «attribute» => exact (Metadata.fills_bracketed (read.isAttribute rfl) _).spells
  | innerAttribute => exact absurd rfl ofItems.1
  | other => exact absurd rfl ofItems.2
  | _ =>
      cases read.isMark _ rfl
      exact spells_mark rfl _

theorem exists_spells {words : List Word} (read : ∀ word ∈ words, word.IsRead)
    (ofItems : ∀ word ∈ words, word.IsOfItems) : ∃ text, Text.Spells text words [] := by
  induction words with
  | nil => exact ⟨[], .nil []⟩
  | cons word rest induction =>
      have readParts := List.forall_mem_cons.mp read
      have parts := List.forall_mem_cons.mp ofItems
      rcases induction readParts.2 parts.2 with ⟨text, spells⟩
      exact ⟨_, (spells_line readParts.1 parts.1 (text ++ [])).append spells⟩

end Word

mutual
theorem TreePhrase.isOfItems : ∀ (phrase : TreePhrase), ∀ word ∈ phrase.words, word.IsOfItems
  | .glob | .name _ | .rename _ _ | .emptyGroup => by
      simp [TreePhrase.words, Word.IsOfItems]
  | .path _ rest => by
      rw [TreePhrase.words, List.forall_mem_append]
      exact ⟨by simp [Word.IsOfItems], rest.isOfItems⟩
  | .group items => by
      rw [TreePhrase.words, List.forall_mem_append, List.forall_mem_append]
      exact ⟨⟨by simp [Word.IsOfItems], items.isOfItems⟩, by simp [Word.IsOfItems]⟩

theorem ListPhrase.isOfItems : ∀ (phrase : ListPhrase), ∀ word ∈ phrase.words, word.IsOfItems
  | .last item comma => by
      rw [ListPhrase.words, List.forall_mem_append]
      refine ⟨item.isOfItems, ?_⟩
      cases comma <;> simp [Word.IsOfItems]
  | .more item rest => by
      rw [ListPhrase.words, List.forall_mem_append, List.forall_mem_append]
      exact ⟨⟨item.isOfItems, by simp [Word.IsOfItems]⟩, rest.isOfItems⟩
end

theorem Visibility.isOfItems_pathWords (segments : List String) :
    ∀ word ∈ pathWords segments, word.IsOfItems := by
  induction segments with
  | nil => exact nofun
  | cons segment rest induction =>
      cases rest with
      | nil => simp [pathWords, Word.IsOfItems]
      | cons next others =>
          rw [pathWords, List.forall_mem_append]
          exact ⟨by simp [Word.IsOfItems], induction⟩

theorem Visibility.isOfItems (visibility : Visibility) :
    ∀ word ∈ visibility.words, word.IsOfItems := by
  cases visibility with
  | inPath segments =>
      simp only [words, scopeWords, List.forall_mem_append]
      exact ⟨by simp [Word.IsOfItems], ⟨by simp [Word.IsOfItems], isOfItems_pathWords segments⟩,
        by simp [Word.IsOfItems]⟩
  | _ => simp [words, scopeWords, Word.IsOfItems]

theorem ItemPhrase.isOfItems (item : ItemPhrase) : ∀ word ∈ item.words, word.IsOfItems := by
  simp only [words, List.forall_mem_append, List.forall_mem_cons]
  refine ⟨?_, item.visibility.isOfItems, by simp [Word.IsOfItems], ?_, item.tree.isOfItems,
    by simp [Word.IsOfItems]⟩
  · simp [attributeWords, Word.IsOfItems]
  · cases item.leadingColon <;> simp [colonWords, Word.IsOfItems]

/-! ## Beginnings -/

/-- Whether items of the grammar, all of them made of words that a text can have, begin with some
words. -/
def BeginItems (words : List Word) : Prop :=
  ∃ items : List ItemPhrase, (∀ item ∈ items, item.IsFormed) ∧
    (∀ word ∈ items.flatMap ItemPhrase.words, word.IsRead) ∧
      words <+: items.flatMap ItemPhrase.words

/-- Whether the tokens of a text that is accepted begin with some words. -/
def IsViable (words : List Word) : Prop :=
  ∃ (text : String) (statements : List Statement), Statement.parse text = .ok statements ∧
    words <+: Text.words text.toList

theorem beginItems_nil : BeginItems [] := ⟨[], nofun, nofun, List.prefix_rfl⟩

theorem BeginItems.cons {item : ItemPhrase} (formed : item.IsFormed)
    (read : ∀ word ∈ item.words, word.IsRead) {words : List Word} (begins : BeginItems words) :
    BeginItems (item.words ++ words) := by
  rcases begins with ⟨items, allFormed, allRead, rest, equal⟩
  refine ⟨item :: items, List.forall_mem_cons.mpr ⟨formed, allFormed⟩, ?_, rest, ?_⟩
  · rw [List.flatMap_cons, List.forall_mem_append]
    exact ⟨read, allRead⟩
  · rw [List.flatMap_cons, ← equal, List.append_assoc]

theorem BeginItems.behind {item : ItemPhrase} (formed : item.IsFormed) {words : List Word}
    (nonempty : words ≠ []) (begins : BeginItems (item.words ++ words)) : BeginItems words := by
  rcases begins with ⟨items, allFormed, allRead, rest, equal⟩
  cases items with
  | nil => simp [nonempty] at equal
  | cons first others =>
      have parts := List.forall_mem_cons.mp allFormed
      rw [List.flatMap_cons, List.append_assoc] at equal
      rcases ItemPhrase.eq_of_append formed parts.1 equal with ⟨rfl, behind⟩
      rw [List.flatMap_cons, List.forall_mem_append] at allRead
      exact ⟨others, parts.2, allRead.2, rest, behind⟩

theorem isViable_iff {words : List Word} : IsViable words ↔ BeginItems words := by
  constructor
  · intro viable
    rcases viable with ⟨text, statements, accepted, begins⟩
    rcases Statement.exists_derives_of_parse accepted with ⟨items, derives, _⟩
    have same : Text.words text.toList = items.flatMap ItemPhrase.words := by
      rw [← derives.tokens]
      exact (Text.map_word_tokens 0 text.toList).symm
    rw [same] at begins
    refine ⟨items, derives.formed, ?_, begins⟩
    intro word member
    rw [← same] at member
    exact Text.isRead_of_mem_words member
  · intro begin
    rcases begin with ⟨items, formed, read, begins⟩
    have ofItems : ∀ word ∈ items.flatMap ItemPhrase.words, word.IsOfItems := by
      intro word member
      rcases List.mem_flatMap.mp member with ⟨item, _, inside⟩
      exact item.isOfItems word inside
    rcases Word.exists_spells read ofItems with ⟨text, spells⟩
    rw [← @String.toList_ofList text] at spells
    rcases Statement.exists_parse_of_derives (ItemPhrase.derives_of_spells formed spells) (some 0) with
      ⟨statements, accepted, _⟩
    refine ⟨String.ofList text, statements, accepted, ?_⟩
    have words := spells.words
    rw [List.append_nil] at words
    rw [words]
    exact begins.trans (List.prefix_append _ _)

/-! ## Completing what was read -/

namespace TreeState

theorem exists_phrase_of_opened {outer : List OpenTree} :
    ∀ {read : List Word}, Opened outer read → ∀ phrase : TreePhrase,
      ∃ (whole : TreePhrase) (back : List Word), whole.words = read ++ (phrase.words ++ back) ∧
        ∀ word ∈ back, word.IsRead := by
  induction outer with
  | nil =>
      intro read opened phrase
      rw [show read = [] from opened]
      exact ⟨phrase, [], by simp, nofun⟩
  | cons around outer induction =>
      intro read opened phrase
      cases around with
      | path word =>
          rcases opened with ⟨before, opened, rfl⟩
          rcases induction opened (.path word phrase) with ⟨whole, back, words, readable⟩
          exact ⟨whole, back, by simp [words, TreePhrase.words], readable⟩
      | group items =>
          rcases opened with ⟨before, done, opened, _, rfl⟩
          rcases exists_listPhrase done phrase false with ⟨inner, _, listed⟩
          rcases induction opened (.group inner) with ⟨whole, back, words, readable⟩
          refine ⟨whole, ⟨.closeBrace, "\x7d"⟩ :: back, ?_, ?_⟩
          · simp [words, TreePhrase.words, listed]
          · exact List.forall_mem_cons.mpr ⟨Word.isRead_mark rfl, readable⟩

/-- Whatever was read of a tree, some words complete it. -/
theorem exists_phrase_of_reached {state : TreeState} {read : List Word}
    (reached : state.Reached read) :
    ∃ (whole : TreePhrase) (back : List Word), whole.words = read ++ back ∧
      ∀ word ∈ back, word.IsRead := by
  have star : Word.IsRead ⟨.star, "*"⟩ := Word.isRead_mark rfl
  cases state with
  | start outer | inGroup items outer =>
      rcases exists_phrase_of_opened reached .glob with ⟨whole, back, words, readable⟩
      exact ⟨whole, _, words, List.forall_mem_append.mpr
        ⟨List.forall_mem_singleton.mpr star, readable⟩⟩
  | afterWord word outer =>
      rcases reached with ⟨before, opened, rfl⟩
      rcases exists_phrase_of_opened opened (.name word) with ⟨whole, back, words, readable⟩
      exact ⟨whole, back, by simp [words, TreePhrase.words], readable⟩
  | «renaming» word outer =>
      rcases reached with ⟨before, opened, rfl⟩
      rcases exists_phrase_of_opened opened (.rename word "_") with ⟨whole, back, words, readable⟩
      refine ⟨whole, ⟨.identifier, "_"⟩ :: back, by simp [words, TreePhrase.words], ?_⟩
      exact List.forall_mem_cons.mpr ⟨Word.isRead_identifier (by decide), readable⟩
  | afterItem items outer =>
      rcases reached with ⟨before, done, last, opened, _, rfl⟩
      rcases exists_listPhrase done last false with ⟨inner, _, listed⟩
      rcases exists_phrase_of_opened opened (.group inner) with ⟨whole, back, words, readable⟩
      refine ⟨whole, ⟨.closeBrace, "\x7d"⟩ :: back, ?_, ?_⟩
      · simp [words, TreePhrase.words, listed]
      · exact List.forall_mem_cons.mpr ⟨Word.isRead_mark rfl, readable⟩
  | complete tree =>
      rcases reached with ⟨phrase, _, rfl⟩
      exact ⟨phrase, [], (List.append_nil _).symm, nofun⟩

end TreeState

namespace ItemState

/-- The words `use *;`, which complete an item behind its attributes and its visibility. -/
def closing : List Word := [⟨.identifier, "use"⟩, ⟨.star, "*"⟩, ⟨.semicolon, ";"⟩]

theorem isRead_closing : ∀ word ∈ closing, word.IsRead := by
  simp only [closing, List.forall_mem_cons]
  exact ⟨Word.isRead_identifier (by decide), Word.isRead_mark rfl, Word.isRead_mark rfl, nofun⟩

/-- Whether some words and some more that a text can have are an item. -/
def Completes (read : List Word) : Prop :=
  ∃ (item : ItemPhrase) (back : List Word), item.IsFormed ∧ item.words = read ++ back ∧
    ∀ word ∈ back, word.IsRead

theorem completes_of_visibility (visibility : Visibility) (formed : visibility.IsFormed)
    (attributes : List String) {read back : List Word}
    (words : attributeWords attributes ++ visibility.words = read ++ back)
    (readable : ∀ word ∈ back, word.IsRead) : Completes read := by
  refine ⟨⟨attributes, visibility, false, .glob⟩, back ++ closing, formed, ?_,
    List.forall_mem_append.mpr ⟨readable, isRead_closing⟩⟩
  rw [← List.append_assoc, ← words, ItemPhrase.words, List.append_assoc]
  rfl

theorem Completes.beginItems {read : List Word} (completes : Completes read)
    (readable : ∀ word ∈ read, word.IsRead) : BeginItems read := by
  rcases completes with ⟨item, back, formed, words, behind⟩
  refine ⟨[item], List.forall_mem_singleton.mpr formed, ?_, back, ?_⟩
  · rw [List.flatMap_singleton, words, List.forall_mem_append]
    exact ⟨readable, behind⟩
  · rw [List.flatMap_singleton, words]

/-- Whatever was read of an item, some words complete it. -/
theorem completes_of_reached {state : ItemState} {read : List Word} (reached : state.Reached read) :
    Completes read := by
  have parenthesis : Word.IsRead ⟨.closeParenthesis, ")"⟩ := Word.isRead_mark rfl
  have named : ∀ word ∈ [(⟨.identifier, "crate"⟩ : Word), ⟨.closeParenthesis, ")"⟩], word.IsRead := by
    simp only [List.forall_mem_cons]
    exact ⟨Word.isRead_identifier (by decide), parenthesis, nofun⟩
  cases state with
  | opening first attributes =>
      have words : attributeWords attributes ++ Visibility.inherited.words = read ++ [] := by
        simp [show read = attributeWords attributes from reached, Visibility.words]
      exact completes_of_visibility .inherited trivial attributes words nofun
  | afterPub first attributes =>
      have words : attributeWords attributes ++ Visibility.exported.words = read ++ [] := by
        simp [show read = _ from reached, Visibility.words, Visibility.scopeWords]
      exact completes_of_visibility .exported trivial attributes words nofun
  | inScope first attributes =>
      have words : attributeWords attributes ++ (Visibility.within "crate").words =
          read ++ [⟨.identifier, "crate"⟩, ⟨.closeParenthesis, ")"⟩] := by
        simp [show read = _ from reached, Visibility.words, Visibility.scopeWords]
      exact completes_of_visibility (.within "crate")
        (show Identifier.isPathKeyword "crate" = true by decide) attributes words named
  | scopeEnd first attributes word =>
      have words : attributeWords attributes ++ (Visibility.within word).words =
          read ++ [⟨.closeParenthesis, ")"⟩] := by
        simp [reached.2, Visibility.words, Visibility.scopeWords]
      exact completes_of_visibility (.within word) reached.1 attributes words
        (List.forall_mem_singleton.mpr parenthesis)
  | scopePath first attributes segments =>
      have words : attributeWords attributes ++ (Visibility.inPath (segments ++ ["crate"])).words =
          read ++ [⟨.identifier, "crate"⟩, ⟨.closeParenthesis, ")"⟩] := by
        simp [show read = _ from reached, Visibility.words, Visibility.scopeWords, inWords,
          pathWords_concat]
      exact completes_of_visibility (.inPath (segments ++ ["crate"]))
        (show segments ++ ["crate"] ≠ [] by simp) attributes words named
  | scopeSegment first attributes segments =>
      have words : attributeWords attributes ++ (Visibility.inPath segments).words =
          read ++ [⟨.closeParenthesis, ")"⟩] := by
        simp [reached.2, Visibility.words, Visibility.scopeWords, inWords]
      exact completes_of_visibility (.inPath segments) reached.1 attributes words
        (List.forall_mem_singleton.mpr parenthesis)
  | keyword first metadata =>
      rcases reached.2 with ⟨visibility, formed, _, rfl⟩
      exact completes_of_visibility visibility formed metadata.attributes (List.append_nil _).symm nofun
  | afterUse first metadata =>
      rcases reached with ⟨_, before, ⟨visibility, formed, _, rfl⟩, rfl⟩
      refine ⟨⟨metadata.attributes, visibility, false, .glob⟩, closing.tail, formed, ?_, ?_⟩
      · simp [ItemPhrase.words, colonWords, TreePhrase.words, closing]
      · intro word member
        exact isRead_closing word (List.mem_of_mem_tail member)
  | inTree first metadata state =>
      rcases reached with ⟨before, inner, ⟨visibility, formed, _, rfl⟩, inside, rfl⟩
      rcases TreeState.exists_phrase_of_reached inside with ⟨whole, back, words, readable⟩
      refine ⟨⟨metadata.attributes, visibility, metadata.leadingColon, whole⟩,
        back ++ [⟨.semicolon, ";"⟩], formed, ?_, ?_⟩
      · simp [ItemPhrase.words, words]
      · exact List.forall_mem_append.mpr
          ⟨readable, List.forall_mem_singleton.mpr (Word.isRead_mark rfl)⟩

end ItemState

end ImportBlock
