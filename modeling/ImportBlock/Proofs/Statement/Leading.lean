import ImportBlock.Organize.File
import ImportBlock.Proofs.Statement.Derivation

/-! Reading the use items at the top of a text: which tokens are read, where reading stops, and how far
the statements reach. -/

namespace ImportBlock

open ItemPhrase (attributeWords colonWords)

def Word.token (word : Word) : Token := ⟨word.kind, word.text, 0, 0⟩

theorem Word.map_word_map_token (words : List Word) :
    (words.map token).map Token.word = words := by
  rw [List.map_map]
  exact List.map_id words

namespace SourceItem

/-! ## Looking ahead -/

theorem goesOn_map_word (tokens : List Token) :
    goesOn (tokens.map fun token => token.word.token) = goesOn tokens := by
  cases tokens with
  | nil => rfl
  | cons token rest =>
      have dropped : (rest.map fun token => token.word.token).dropWhile
            (fun token => token.kind ≠ .closeParenthesis) =
          (rest.dropWhile fun token => token.kind ≠ .closeParenthesis).map
            fun token => token.word.token := List.dropWhile_map
      rw [List.map_cons, goesOn, goesOn, dropped]
      generalize rest.dropWhile (fun token => token.kind ≠ .closeParenthesis) = others
      rcases others with _ | ⟨_, _ | _⟩ <;> rfl

theorem begins_map_word (tokens : List Token) :
    begins (tokens.map fun token => token.word.token) = begins tokens := by
  have dropped : (tokens.map fun token => token.word.token).dropWhile
        (fun token => token.kind = .attribute) =
      (tokens.dropWhile fun token => token.kind = .attribute).map
        fun token => token.word.token := List.dropWhile_map
  rw [begins, begins, dropped]
  generalize tokens.dropWhile (fun token => token.kind = .attribute) = others
  cases others with
  | nil => rfl
  | cons token rest =>
      rw [List.map_cons]
      dsimp only
      rw [goesOn_map_word]
      rfl

theorem begins_congr {left right : List Token}
    (same : left.map Token.word = right.map Token.word) : begins left = begins right := by
  have places : ∀ tokens : List Token,
      (tokens.map fun token => token.word.token) = (tokens.map Token.word).map Word.token := by
    intro tokens
    rw [List.map_map]
    rfl
  rw [← begins_map_word left, ← begins_map_word right, places, places, same]

theorem kind_ne_of_mem_pathWords {segments : List String} {word : Word}
    (member : word ∈ Visibility.pathWords segments) : word.kind ≠ .closeParenthesis := by
  induction segments with
  | nil => cases member
  | cons first rest induction =>
      cases rest with
      | nil =>
          rw [List.mem_singleton.mp member]
          exact nofun
      | cons next others =>
          rcases List.mem_cons.mp member with rfl | member
          · exact nofun
          · rcases List.mem_cons.mp member with rfl | member
            · exact nofun
            · exact induction member

theorem goesOn_scopeWords {visibility : Visibility} (rest : List Word) :
    goesOn ((visibility.scopeWords ++ ⟨.identifier, "use"⟩ :: rest).map Word.token) =
      some true := by
  cases visibility with
  | inPath segments =>
      have dropped : ((Visibility.pathWords segments ++
            ⟨.closeParenthesis, ")"⟩ :: ⟨.identifier, "use"⟩ :: rest).map Word.token).dropWhile
              (fun token => token.kind ≠ .closeParenthesis) =
          (⟨.closeParenthesis, ")"⟩ :: ⟨.identifier, "use"⟩ :: rest).map Word.token := by
        rw [List.map_append, List.dropWhile_append_of_pos]
        · rfl
        · intro token member
          rcases List.mem_map.mp member with ⟨word, inside, rfl⟩
          exact decide_eq_true (kind_ne_of_mem_pathWords inside)
      have whole : (Visibility.inPath segments).scopeWords ++ ⟨.identifier, "use"⟩ :: rest =
          ⟨.openParenthesis, "("⟩ :: ⟨.identifier, "in"⟩ :: (Visibility.pathWords segments ++
            ⟨.closeParenthesis, ")"⟩ :: ⟨.identifier, "use"⟩ :: rest) := by
        simp [Visibility.scopeWords]
      rw [whole, List.map_cons, List.map_cons, goesOn, if_pos (by rfl),
        List.dropWhile_cons_of_pos (by rfl), dropped]
      rfl
  | _ => rfl

theorem begins_attributeWords (attributes : List String) (rest : List Word) :
    begins ((attributeWords attributes ++ rest).map Word.token) = begins (rest.map Word.token) := by
  rw [begins, List.map_append, List.dropWhile_append_of_pos]
  · rfl
  · intro token member
    rcases List.mem_map.mp member with ⟨word, inside, rfl⟩
    rcases List.mem_map.mp inside with ⟨body, _, rfl⟩
    rfl

theorem begins_pub (rest : List Word) :
    begins ((⟨.identifier, "pub"⟩ :: rest : List Word).map Word.token) =
      goesOn (rest.map Word.token) := rfl

theorem begins_words (item : ItemPhrase) (rest : List Word) :
    begins ((item.words ++ rest).map Word.token) = some true := by
  rw [ItemPhrase.words, List.append_assoc, begins_attributeWords, List.append_assoc]
  cases item.visibility with
  | inherited => rfl
  | _ =>
      rw [Visibility.words, List.append_assoc, List.singleton_append, begins_pub]
      · exact goesOn_scopeWords _
      · intro inherited
        cases inherited

end SourceItem

/-! ## How far statements reach -/

/-- Whether statements reach over tokens, one behind the other. -/
inductive Statement.Cover : List Statement → List Token → Prop
  | nil : Cover [] []
  | cons {statement : Statement} {statements : List Statement} {front back : List Token}
      {span : Span} (stands : statement.span = some span) (reaches : Token.span? front = some span)
      (behind : Cover statements back) : Cover (statement :: statements) (front ++ back)

theorem blockSpan?_cons {statement : Statement} {statements : List Statement} {first span : Span}
    (stands : statement.span = some first) (behind : blockSpan? statements = some span) :
    blockSpan? (statement :: statements) = some ⟨first.start, span.stop⟩ := by
  cases statements with
  | nil => cases behind
  | cons next others =>
      simp only [blockSpan?, List.getLast?_cons_cons, List.head?_cons, Option.bind_eq_bind,
        Option.bind_some, Option.bind_eq_some_iff] at behind ⊢
      rcases behind with ⟨last, final, _, _, reach, stands', equal⟩
      cases equal
      exact ⟨last, final, first, stands, reach, stands', rfl⟩

/-- Whether statements are read off derivations of items one by one, each from the tokens that it
reaches over. -/
inductive Statement.ReadOff : List Statement → List ItemPhrase → List Token → Prop
  | nil : ReadOff [] [] []
  | cons {statement : Statement} {statements : List Statement} {item : ItemPhrase}
      {items : List ItemPhrase} {front back : List Token} {span : Span}
      (stands : statement.span = some span) (content : statement.content = item.content)
      (formed : item.IsFormed) (words : front.map Token.word = item.words)
      (reaches : Token.span? front = some span) (behind : ReadOff statements items back) :
      ReadOff (statement :: statements) (item :: items) (front ++ back)

theorem Statement.ReadOff.cover {statements : List Statement} {items : List ItemPhrase}
    {tokens : List Token} (readOff : ReadOff statements items tokens) : Cover statements tokens := by
  induction readOff with
  | nil => exact .nil
  | cons stands _ _ _ reaches _ induction => exact .cons stands reaches induction

theorem Statement.ReadOff.contents {statements : List Statement} {items : List ItemPhrase}
    {tokens : List Token} (readOff : ReadOff statements items tokens) :
    statements.map content = items.map ItemPhrase.content := by
  induction readOff with
  | nil => rfl
  | cons _ content _ _ _ _ induction => rw [List.map_cons, List.map_cons, content, induction]

theorem exists_span_of_cover {statements : List Statement} {tokens : List Token}
    (cover : Statement.Cover statements tokens) :
    (statements = [] ∧ tokens = []) ∨
      ∃ span, blockSpan? statements = some span ∧ Token.span? tokens = some span := by
  induction cover with
  | nil => exact .inl ⟨rfl, rfl⟩
  | @cons statement statements front back span stands reaches _ induction =>
      right
      rcases induction with ⟨rfl, rfl⟩ | ⟨span', whole, reaches'⟩
      · refine ⟨span, ?_, by rw [List.append_nil, reaches]⟩
        simp [blockSpan?, stands]
      · exact ⟨_, blockSpan?_cons stands whole, Token.span?_append reaches reaches'⟩

namespace Backlog

/-! ## Reading -/

theorem readLeading_eq_nil {backlog : Backlog}
    (quiet : SourceItem.begins backlog.tokens = some false ∨
      SourceItem.begins backlog.tokens = none ∧ backlog.pending = none) :
    backlog.readLeading = .ok [] := by
  rw [readLeading]
  rcases quiet with other | ⟨ended, readable⟩
  · split <;> simp_all
  · split <;> simp_all [runOut]

theorem readLeading_of_readItem {backlog next : Backlog} {statement : Statement}
    (begun : SourceItem.begins backlog.tokens = some true)
    (success : backlog.readItem = (.ok statement, next)) :
    backlog.readLeading = next.readLeading.map (statement :: ·) := by
  rw [readLeading]
  split
  · next ended =>
      rw [begun] at ended
      cases ended
  · next other =>
      rw [begun] at other
      cases other
  · split
    · next failed =>
        rw [success] at failed
        cases failed
    · next equal =>
        rw [success] at equal
        cases equal
        rfl

/-- Items are read one after the other up to where no item begins. -/
theorem exists_readLeading {items : List ItemPhrase} (formed : ∀ item ∈ items, item.IsFormed)
    {back : List Token} : ∀ {backlog : Backlog} {front : List Token},
      backlog.tokens = front ++ back → front.map Token.word = items.flatMap ItemPhrase.words →
        { backlog with tokens := back }.readLeading = .ok [] →
          ∃ statements, backlog.readLeading = .ok statements ∧
            Statement.ReadOff statements items front := by
  induction items with
  | nil =>
      intro backlog front tokens words ends
      have none : front = [] := List.map_eq_nil_iff.mp words
      rw [none, List.nil_append] at tokens
      refine ⟨[], ?_, by rw [none]; exact .nil⟩
      rw [← tokens] at ends
      exact ends
  | cons item others induction =>
      intro backlog front tokens words ends
      have parts := List.forall_mem_cons.mp formed
      rw [List.flatMap_cons] at words
      rcases List.map_eq_append_iff.mp words with ⟨first, rest, rfl, firstWords, restWords⟩
      rw [List.append_assoc] at tokens
      rcases exists_readItem parts.1 tokens firstWords with
        ⟨statement, success, content, span, stands, reaches⟩
      have begun : SourceItem.begins backlog.tokens = some true := by
        rw [← SourceItem.begins_words item (rest.map Token.word ++ back.map Token.word)]
        apply SourceItem.begins_congr
        rw [Word.map_word_map_token, tokens, List.map_append, List.map_append, firstWords]
      rcases @induction parts.2 { backlog with tokens := rest ++ back } rest rfl restWords ends with
        ⟨statements, behind, readOff⟩
      refine ⟨statement :: statements, ?_, .cons stands content parts.1 firstWords reaches readOff⟩
      rw [readLeading_of_readItem begun success, behind]
      rfl

/-- What is read is read off a derivation of items, and no item begins behind it. -/
theorem exists_phrases_of_readLeading {backlog : Backlog}
    (words : ∀ token ∈ backlog.tokens, token.word.IsRead) {statements : List Statement}
    (success : backlog.readLeading = .ok statements) :
    ∃ (items : List ItemPhrase) (front back : List Token), (∀ item ∈ items, item.IsFormed) ∧
      backlog.tokens = front ++ back ∧ front.map Token.word = items.flatMap ItemPhrase.words ∧
        (SourceItem.begins back = some false ∨
          SourceItem.begins back = none ∧ backlog.pending = none) := by
  fun_induction readLeading backlog generalizing statements with
  | case1 backlog ended =>
      unfold runOut at success
      split at success
      · cases success
      · next readable =>
          cases success
          exact ⟨[], [], backlog.tokens, nofun, rfl, rfl, .inr ⟨ended, readable⟩⟩
  | case2 backlog other =>
      cases success
      exact ⟨[], [], backlog.tokens, nofun, rfl, rfl, .inl other⟩
  | case3 => cases success
  | case4 backlog begun statement next equal induction =>
      rcases exists_phrase_of_readItem words equal with
        ⟨item, first, formed, tokens, spelled, _, same⟩
      cases behind : next.readLeading with
      | error _ =>
          rw [behind] at success
          cases success
      | ok others =>
          rw [behind] at success
          cases success
          rw [tokens] at words
          rcases induction (List.forall_mem_append.mp words).2 behind with
            ⟨items, front, back, allFormed, later, allSpelled, quiet⟩
          rw [same] at quiet
          refine ⟨item :: items, first ++ front, back, List.forall_mem_cons.mpr ⟨formed, allFormed⟩,
            ?_, ?_, quiet⟩
          · rw [tokens, later, List.append_assoc]
          · rw [List.map_append, spelled, allSpelled, List.flatMap_cons]

end Backlog

/-! ## The top of a text -/

theorem dropWhile_eq_self_of_head {α : Type} {test : α → Bool} {items : List α}
    (stops : ∀ item ∈ items.head?, test item = false) : items.dropWhile test = items := by
  cases items with
  | nil => rfl
  | cons first rest => exact List.dropWhile_cons_of_neg (by simp [stops first rfl])

theorem Backlog.skipInnerAttributes_eq {backlog : Backlog} {inner others : List Token}
    (tokens : backlog.tokens = inner ++ others)
    (passed : ∀ token ∈ inner, token.kind = .innerAttribute)
    (stops : ∀ token ∈ others.head?, token.kind ≠ .innerAttribute)
    (readable : others = [] → backlog.pending = none) :
    backlog.skipInnerAttributes = (.ok (), { backlog with tokens := others }) := by
  have dropped : (backlog.tokens.dropWhile fun token => token.kind = .innerAttribute) = others := by
    rw [tokens, List.dropWhile_append_of_pos (by simpa using passed)]
    exact dropWhile_eq_self_of_head (by simpa using stops)
  rw [skipInnerAttributes, dropped]
  cases others with
  | nil => simp only [runOut, readable rfl]
  | cons first rest => rfl

theorem Backlog.pending_ofText (text : String) (fragment : Option Int) :
    (ofText text fragment).pending = none ↔ Text.fault? text.toList = none := by
  change (Text.fault? text.toList).map _ = none ↔ _
  rw [Option.map_eq_none_iff]

/-- If skipping succeeds, only inner attributes were skipped, and all of them. -/
theorem Backlog.of_skipInnerAttributes {backlog next : Backlog}
    (success : backlog.skipInnerAttributes = (.ok (), next)) :
    ∃ inner, backlog.tokens = inner ++ next.tokens ∧
      (∀ token ∈ inner, token.kind = .innerAttribute) ∧
        (∀ token ∈ next.tokens.head?, token.kind ≠ .innerAttribute) ∧
          next = { backlog with tokens := next.tokens } := by
  let test : Token → Bool := fun token => token.kind = .innerAttribute
  have same : next = { backlog with tokens := backlog.tokens.dropWhile test } := by
    unfold skipInnerAttributes at success
    dsimp only at success
    split at success
    · unfold runOut at success
      split at success
      · cases success
      · cases success
        rfl
    · cases success
      rfl
  refine ⟨backlog.tokens.takeWhile test, ?_, ?_, ?_, ?_⟩
  · rw [same]
    exact List.takeWhile_append_dropWhile.symm
  · intro token member
    simpa [test] using List.mem_takeWhile_imp member
  · intro token first
    rw [same] at first
    have stopped := List.head?_dropWhile_not test backlog.tokens
    rw [show (backlog.tokens.dropWhile test).head? = some token from first] at stopped
    simpa [test] using stopped
  · rw [same]

/-- Whether a text opens with items: only inner attributes stand in front of them, and no item stands
behind them. -/
structure Text.OpensWith (text : List Char) (items : List ItemPhrase) (inner front back : List Token) :
    Prop where
  formed : ∀ item ∈ items, item.IsFormed
  tokens : Text.tokens 0 text = inner ++ (front ++ back)
  passed : ∀ token ∈ inner, token.kind = .innerAttribute
  stops : ∀ token ∈ (front ++ back).head?, token.kind ≠ .innerAttribute
  words : front.map Token.word = items.flatMap ItemPhrase.words
  quiet : SourceItem.begins back = some false ∨
    SourceItem.begins back = none ∧ Text.fault? text = none

namespace Statement

theorem exists_scan {text : String} {items : List ItemPhrase} {inner front back : List Token}
    (opens : Text.OpensWith text.toList items inner front back) :
    ∃ statements, scan text = .ok statements ∧ ReadOff statements items front := by
  let backlog := Backlog.ofText text (some 0)
  have quiet : SourceItem.begins back = some false ∨
      SourceItem.begins back = none ∧ backlog.pending = none := by
    rw [Backlog.pending_ofText]
    exact opens.quiet
  have readable : front ++ back = [] → backlog.pending = none := by
    intro ended
    rw [(List.append_eq_nil_iff.mp ended).2] at quiet
    exact (quiet.resolve_left nofun).2
  have skipped := Backlog.skipInnerAttributes_eq opens.tokens opens.passed opens.stops readable
  rcases @Backlog.exists_readLeading items opens.formed back
    { backlog with tokens := front ++ back } front rfl opens.words
      (Backlog.readLeading_eq_nil quiet) with ⟨statements, success, readOff⟩
  refine ⟨statements, ?_, readOff⟩
  rw [scan_eq, skipped]
  exact success

/-- What is read at the top of a text is read off a derivation of the items that the text opens with. -/
theorem exists_opensWith_of_scan {text : String} {statements : List Statement}
    (success : scan text = .ok statements) :
    ∃ items inner front back, Text.OpensWith text.toList items inner front back ∧
      ReadOff statements items front := by
  let backlog := Backlog.ofText text (some 0)
  have whole := success
  rw [scan_eq] at success
  rcases skipping : backlog.skipInnerAttributes with ⟨skipped, next⟩
  rw [skipping] at success
  cases skipped with
  | error error => cases success
  | ok _ =>
      rcases Backlog.of_skipInnerAttributes skipping with ⟨inner, tokens, passed, stops, same⟩
      have words : ∀ token ∈ next.tokens, token.word.IsRead := by
        intro token member
        have inside : token ∈ backlog.tokens := tokens ▸ List.mem_append_right inner member
        exact TokenStream.isRead_of_mem_tokens inside
      rcases Backlog.exists_phrases_of_readLeading words success with
        ⟨items, front, back, formed, split, spelled, quiet⟩
      rw [split] at tokens stops
      rw [same, Backlog.pending_ofText] at quiet
      have opens : Text.OpensWith text.toList items inner front back :=
        ⟨formed, tokens, passed, stops, spelled, quiet⟩
      rcases exists_scan opens with ⟨again, success', readOff⟩
      rw [whole, Except.ok.injEq] at success'
      exact ⟨items, inner, front, back, opens, success' ▸ readOff⟩

end Statement

end ImportBlock
