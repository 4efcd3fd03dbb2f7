import ImportBlock.Proofs.Statement.Buffer
import ImportBlock.Proofs.Statement.ItemReader
import Mathlib

/-! Reading whole texts. A text is accepted if its tokens are those of a derivation of items, and the
statements that are read say what this derivation says. -/

namespace ImportBlock

/-- What a statement says, wherever it stands. -/
def Statement.content (statement : Statement) : Metadata × UseTree :=
  (statement.metadata, statement.tree)

def ItemPhrase.content (item : ItemPhrase) : Metadata × UseTree := (item.metadata, item.tree.tree)

/-- Whether a text is one of some items: it can be cut into tokens up to its end, and these are those
of the items. -/
structure ItemPhrase.Derives (items : List ItemPhrase) (text : String) : Prop where
  formed : ∀ item ∈ items, item.IsFormed
  readable : (TokenStream.ofText text.toList).fault = none
  tokens : (TokenStream.ofText text.toList).tokens.map Token.word = items.flatMap words

theorem ItemPhrase.derives_of_spells {items : List ItemPhrase}
    (formed : ∀ item ∈ items, item.IsFormed) {text : String}
    (spells : Text.Spells text.toList (items.flatMap words) []) : Derives items text := by
  have readable := spells.fault?
  have read := spells.words
  rw [List.append_nil] at readable read
  refine ⟨formed, ?_, ?_⟩
  · change (Text.fault? text.toList).map _ = none
    rw [readable, Text.fault?_nil]
    rfl
  · change (Text.tokens 0 text.toList).map Token.word = _
    rw [Text.map_word_tokens, read, Text.words, Lexeme.scan]
    simp

namespace Backlog

theorem readAll_of_tokens_nil {backlog : Backlog} (ended : backlog.tokens = [])
    (readable : backlog.pending = none) : backlog.readAll = .ok [] := by
  rw [readAll, ended]
  simp only [runOut, readable]

theorem readAll_of_readItem {backlog next : Backlog} {statement : Statement}
    (success : backlog.readItem = (.ok statement, next)) :
    backlog.readAll = next.readAll.map (statement :: ·) := by
  have shorter := length_readItem success
  rw [readAll]
  split
  · next ended => simp [ended] at shorter
  · split
    · next failed =>
        rw [success] at failed
        cases failed
    · next equal =>
        rw [success] at equal
        cases equal
        rfl

/-! ## The tokens of a derivation -/

/-- The words of an item are read as the statement that the item is, and the tokens behind them stay. -/
theorem readItem_append {item : ItemPhrase} (formed : item.IsFormed) {backlog : Backlog}
    {front back : List Token} (tokens : backlog.tokens = front ++ back)
    (words : front.map Token.word = item.words) :
    ∃ span, Token.span? front = some span ∧ backlog.readItem =
      (.ok ⟨item.tree.tree, item.metadata, backlog.fragment, some span⟩,
        { backlog with tokens := back }) := by
  rcases SourceItem.read_append formed words back with ⟨span, reaches, success⟩
  refine ⟨span, reaches, ?_⟩
  rw [readItem_eq, tokens, success]

theorem exists_readItem {item : ItemPhrase} (formed : item.IsFormed) {backlog : Backlog}
    {front back : List Token} (tokens : backlog.tokens = front ++ back)
    (words : front.map Token.word = item.words) :
    ∃ statement, backlog.readItem = (.ok statement, { backlog with tokens := back }) ∧
      statement.content = item.content ∧
        ∃ span, statement.span = some span ∧ Token.span? front = some span := by
  rcases readItem_append formed tokens words with ⟨span, reaches, success⟩
  exact ⟨_, success, rfl, span, rfl, reaches⟩

theorem exists_readAll {items : List ItemPhrase} (formed : ∀ item ∈ items, item.IsFormed) :
    ∀ {backlog : Backlog}, backlog.pending = none →
      backlog.tokens.map Token.word = items.flatMap ItemPhrase.words →
        ∃ statements, backlog.readAll = .ok statements ∧
          statements.map Statement.content = items.map ItemPhrase.content := by
  induction items with
  | nil =>
      intro backlog readable equal
      exact ⟨[], readAll_of_tokens_nil (List.map_eq_nil_iff.mp equal) readable, rfl⟩
  | cons item others induction =>
      intro backlog readable equal
      have parts := List.forall_mem_cons.mp formed
      rw [List.flatMap_cons] at equal
      rcases List.map_eq_append_iff.mp equal with ⟨front, back, tokens, frontWords, backWords⟩
      rcases exists_readItem parts.1 tokens frontWords with ⟨statement, success, same, _⟩
      have later := @induction parts.2 { backlog with tokens := back } readable backWords
      rcases later with ⟨statements, behind, others⟩
      refine ⟨statement :: statements, ?_, ?_⟩
      · rw [readAll_of_readItem success, behind]
        rfl
      · rw [List.map_cons, List.map_cons, same, others]

/-! ## What is read -/

theorem of_readItem {backlog next : Backlog} {statement : Statement}
    (success : backlog.readItem = (.ok statement, next)) :
    ∃ item, SourceItem.read backlog.tokens = (.ok item, next.tokens) ∧
      statement = ⟨item.tree, item.metadata, backlog.fragment, some item.span⟩ ∧
        next = { backlog with tokens := next.tokens } := by
  rw [readItem_eq] at success
  split at success
  · next item rest equal =>
      cases success
      exact ⟨item, equal, rfl, rfl⟩
  · cases success
  · unfold runOut at success
    split at success <;> cases success

theorem exists_phrase_of_readItem {backlog next : Backlog} {statement : Statement}
    (words : ∀ token ∈ backlog.tokens, token.word.IsRead)
    (success : backlog.readItem = (.ok statement, next)) :
    ∃ (item : ItemPhrase) (front : List Token), item.IsFormed ∧
      backlog.tokens = front ++ next.tokens ∧ front.map Token.word = item.words ∧
        statement.content = item.content ∧ next = { backlog with tokens := next.tokens } := by
  rcases of_readItem success with ⟨item, read, rfl, same⟩
  have begun : (ItemState.opening none []).Reached [] := rfl
  rcases SourceItem.exists_isDerived words begun read with ⟨front, tokens, derived⟩
  rcases derived with ⟨phrase, formed, metadata, tree, equal⟩
  refine ⟨phrase, front, formed, tokens, equal.symm, ?_, same⟩
  rw [ItemPhrase.content, metadata, tree]
  rfl

/-- What is read up to the end of a text is read off a derivation of items. -/
theorem exists_phrases_of_readAll {backlog : Backlog}
    (words : ∀ token ∈ backlog.tokens, token.word.IsRead) {statements : List Statement}
    (success : backlog.readAll = .ok statements) :
    backlog.pending = none ∧ ∃ items : List ItemPhrase, (∀ item ∈ items, item.IsFormed) ∧
      backlog.tokens.map Token.word = items.flatMap ItemPhrase.words ∧
        statements.map Statement.content = items.map ItemPhrase.content := by
  fun_induction readAll backlog generalizing statements with
  | case1 backlog ended =>
      unfold runOut at success
      split at success
      · cases success
      · next readable =>
          cases success
          exact ⟨readable, [], nofun, by rw [ended]; rfl, rfl⟩
  | case2 => cases success
  | case3 backlog _ _ _ statement next equal induction =>
      rcases exists_phrase_of_readItem words equal with
        ⟨item, front, formed, tokens, spelled, contents, same⟩
      cases behind : next.readAll with
      | error _ =>
          rw [behind] at success
          cases success
      | ok others =>
          rw [behind] at success
          cases success
          rw [tokens] at words
          rcases induction (List.forall_mem_append.mp words).2 behind with
            ⟨readable, items, allFormed, later, allContents⟩
          rw [same] at readable
          refine ⟨readable, item :: items, List.forall_mem_cons.mpr ⟨formed, allFormed⟩, ?_, ?_⟩
          · rw [tokens, List.map_append, spelled, later, List.flatMap_cons]
          · rw [List.map_cons, contents, allContents, List.map_cons]

end Backlog

theorem TokenStream.isRead_of_mem_tokens {text : List Char} {token : Token}
    (member : token ∈ (ofText text).tokens) : token.word.IsRead := by
  have inside : token.word ∈ Text.words text := by
    rw [← Text.map_word_tokens 0]
    exact List.mem_map_of_mem member
  exact Text.isRead_of_mem_words inside

/-! ## Texts -/

theorem ItemPhrase.Derives.eq {left right : List ItemPhrase} {text : String}
    (derives : Derives left text) (derives' : Derives right text) : left = right :=
  eq_of_flatMap_words derives.formed derives'.formed (derives.tokens.symm.trans derives'.tokens)

namespace Statement

theorem exists_parse_of_derives {items : List ItemPhrase} {text : String}
    (derives : ItemPhrase.Derives items text) (fragment : Option Int) :
    ∃ statements, parse text fragment = .ok statements ∧
      statements.map content = items.map ItemPhrase.content := by
  rw [parse_eq]
  exact Backlog.exists_readAll derives.formed derives.readable derives.tokens

theorem exists_derives_of_parse {text : String} {fragment : Option Int}
    {statements : List Statement} (success : parse text fragment = .ok statements) :
    ∃ items, ItemPhrase.Derives items text ∧
      statements.map content = items.map ItemPhrase.content := by
  rw [parse_eq] at success
  rcases Backlog.exists_phrases_of_readAll
    (fun _ member => TokenStream.isRead_of_mem_tokens member) success with
      ⟨readable, items, formed, words, contents⟩
  exact ⟨items, ⟨formed, readable, words⟩, contents⟩

/-- A text is accepted exactly if it has a derivation. There is one derivation at most, and the
statements say what it says. Every other text is an error. -/
theorem parse_iff_derives (text : String) (fragment : Option Int) :
    ((∃ statements, parse text fragment = .ok statements) ↔
      ∃ items, ItemPhrase.Derives items text) ∧
    (∀ items others, ItemPhrase.Derives items text → ItemPhrase.Derives others text →
      items = others) ∧
    (∀ statements items, parse text fragment = .ok statements → ItemPhrase.Derives items text →
      statements.map content = items.map ItemPhrase.content) ∧
    ((¬∃ items, ItemPhrase.Derives items text) → ∃ error, parse text fragment = .error error) := by
  refine ⟨⟨?_, ?_⟩, ?_, ?_, ?_⟩
  · intro accepted
    rcases accepted with ⟨statements, success⟩
    rcases exists_derives_of_parse success with ⟨items, derives, _⟩
    exact ⟨items, derives⟩
  · intro derivable
    rcases derivable with ⟨items, derives⟩
    rcases exists_parse_of_derives derives fragment with ⟨statements, success, _⟩
    exact ⟨statements, success⟩
  · intro items others derives derives'
    exact derives.eq derives'
  · intro statements items success derives
    rcases exists_derives_of_parse success with ⟨others, derives', contents⟩
    rw [contents, derives.eq derives']
  · intro underivable
    cases result : parse text fragment with
    | error error => exact ⟨error, rfl⟩
    | ok statements =>
        rcases exists_derives_of_parse result with ⟨items, derives, _⟩
        exact absurd ⟨items, derives⟩ underivable

theorem parse_iff_derives_keyword_path :
    ∃ statements,
      parse "#[cfg( test )] pub(in a) use ::as::\x7bself, b as c,\x7d;" (some 0) = .ok statements ∧
        statements.map content =
          [({ visibility := "pub(in a)", attributes := ["cfg( test )"], leadingColon := true },
            .path "as" (.group [.name "self", .rename "b" "c"]))] := by
  let tree : TreePhrase := .path "as" (.group (.more (.name "self") (.last (.rename "b" "c") true)))
  let item : ItemPhrase := ⟨["cfg( test )"], .inPath ["a"], true, tree⟩
  have derives : ItemPhrase.Derives [item]
      "#[cfg( test )] pub(in a) use ::as::\x7bself, b as c,\x7d;" :=
    ⟨List.forall_mem_singleton.mpr (List.cons_ne_nil _ _), by cbv, by cbv⟩
  have accepted := parse_iff_derives
    "#[cfg( test )] pub(in a) use ::as::\x7bself, b as c,\x7d;" (some 0)
  rcases accepted.1.mpr ⟨_, derives⟩ with ⟨statements, success⟩
  exact ⟨statements, success, accepted.2.2.1 statements [item] success derives⟩

end Statement

end ImportBlock
