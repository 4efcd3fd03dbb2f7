import ImportBlock.Statement.Syntax
import ImportBlock.Token
import ImportBlock.Proofs.Lexeme

/-! The tokens of texts that are put together. A token keeps its kind and text if it is written out
again in front of a text that does not continue it. -/

namespace ImportBlock

/-- What a token is, wherever it stands. -/
structure Word where
  kind : TokenKind
  text : String
deriving DecidableEq, Repr

def Token.word (token : Token) : Word := ⟨token.kind, token.text⟩

def Token.span? (tokens : List Token) : Option Span := do
  let first ← tokens.head?
  let last ← tokens.getLast?
  return ⟨first.start, last.stop⟩

theorem Token.span?_eq_some {tokens : List Token} {span : Span} :
    span? tokens = some span ↔
      (∃ first ∈ tokens.head?, first.start = span.start) ∧
        ∃ last ∈ tokens.getLast?, last.stop = span.stop := by
  rcases span with ⟨start, stop⟩
  cases tokens with
  | nil => simp [span?]
  | cons first rest => simp [span?, List.getLast?_cons]

theorem Token.span?_append {front back : List Token} {before behind : Span}
    (first : span? front = some before) (last : span? back = some behind) :
    span? (front ++ back) = some ⟨before.start, behind.stop⟩ := by
  rcases span?_eq_some.mp first with ⟨⟨begin, head, start⟩, _⟩
  rcases span?_eq_some.mp last with ⟨_, final, tail, stop⟩
  apply span?_eq_some.mpr
  exact ⟨⟨begin, by simp_all, start⟩, final, by simp_all, stop⟩

def Lexeme.word? (lexeme : Lexeme) : Option Word :=
  match lexeme.kind with
  | .token kind => some ⟨kind, String.ofList lexeme.text⟩
  | _ => none

theorem Lexeme.text_outerAttribute (body : List Char) :
    text ⟨.token .attribute, '#' :: '[' :: (body ++ [']'])⟩ = Text.collapse body := by
  simp [text]

theorem Lexeme.text_innerAttribute (body : List Char) :
    text ⟨.token .innerAttribute, '#' :: '!' :: '[' :: (body ++ [']'])⟩ = Text.collapse body := by
  simp [text]

theorem Token.map_word_ofLexemes (start : Nat) (lexemes : List Lexeme) :
    (ofLexemes start lexemes).map word = lexemes.filterMap Lexeme.word? := by
  induction lexemes generalizing start with
  | nil => rfl
  | cons lexeme rest induction =>
      rcases lexeme with ⟨kind, source⟩
      cases kind <;> simp [ofLexemes, List.filterMap_cons, Lexeme.word?, word, induction]

namespace Text

def words (text : List Char) : List Word := (Lexeme.scan text).1.filterMap Lexeme.word?

def fault? (text : List Char) : Option LexicalFault := (Lexeme.scan text).2

/-- The tokens of a text that stands behind `start` characters. -/
def tokens (start : Nat) (text : List Char) : List Token := Token.ofLexemes start (Lexeme.scan text).1

theorem map_word_tokens (start : Nat) (text : List Char) :
    (tokens start text).map Token.word = words text :=
  Token.map_word_ofLexemes start _

@[simp] theorem tokens_nil (start : Nat) : tokens start [] = [] := by
  rw [tokens, Lexeme.scan]
  rfl

@[simp] theorem fault?_nil : fault? [] = none := by
  rw [fault?, Lexeme.scan]

/-- Whether some words are what a text adds to the tokens of the text behind it. -/
structure Spells (text : List Char) (spelled : List Word) (rest : List Char) : Prop where
  tokens : ∀ start, ∃ front : List Token, front.map Token.word = spelled ∧
    tokens start (text ++ rest) = front ++ Text.tokens (start + text.length) rest
  fault? : fault? (text ++ rest) = Text.fault? rest

namespace Spells

theorem nil (rest : List Char) : Spells [] [] rest := ⟨fun _ => ⟨[], rfl, rfl⟩, rfl⟩

theorem append {first second rest : List Char} {front back : List Word}
    (before : Spells first front (second ++ rest)) (behind : Spells second back rest) :
    Spells (first ++ second) (front ++ back) rest := by
  constructor
  · intro start
    rcases before.tokens start with ⟨tokens, rfl, equal⟩
    rcases behind.tokens (start + first.length) with ⟨others, rfl, equal'⟩
    refine ⟨tokens ++ others, List.map_append, ?_⟩
    rw [List.append_assoc, equal, equal', List.length_append, ← Nat.add_assoc, List.append_assoc]
  · rw [List.append_assoc, before.fault?, behind.fault?]

theorem skips {text rest : List Char} (spells : Spells text [] rest) (start : Nat) :
    Text.tokens start (text ++ rest) = Text.tokens (start + text.length) rest := by
  rcases spells.tokens start with ⟨front, none, equal⟩
  rwa [List.map_eq_nil_iff.mp none, List.nil_append] at equal

theorem words {text rest : List Char} {spelled : List Word} (spells : Spells text spelled rest) :
    words (text ++ rest) = spelled ++ Text.words rest := by
  rcases spells.tokens 0 with ⟨front, equal, tokens⟩
  rw [← map_word_tokens 0, tokens, List.map_append, equal, map_word_tokens]

end Spells

theorem scan_append {c : Char} {body rest : List Char} {kind : LexemeKind}
    (found : Lexeme.next c (body ++ rest) = .ok (kind, body.length)) :
    Lexeme.scan (c :: body ++ rest) =
      (⟨kind, c :: body⟩ :: (Lexeme.scan rest).1, (Lexeme.scan rest).2) := by
  rw [List.cons_append, Lexeme.scan, found]
  simp

theorem tokens_token {c : Char} {body rest : List Char} {kind : TokenKind}
    (found : Lexeme.next c (body ++ rest) = .ok (.token kind, body.length)) (start : Nat) :
    tokens start (c :: body ++ rest) =
      ⟨kind, String.ofList (Lexeme.text ⟨.token kind, c :: body⟩), start, start + (c :: body).length⟩ ::
        tokens (start + (c :: body).length) rest := by
  rw [tokens, scan_append found]
  rfl

theorem spells_lexeme {c : Char} {body rest : List Char} {kind : LexemeKind}
    (found : Lexeme.next c (body ++ rest) = .ok (kind, body.length)) :
    Spells (c :: body) (Lexeme.word? ⟨kind, c :: body⟩).toList rest := by
  constructor
  · intro start
    rw [tokens, scan_append found, Token.ofLexemes]
    cases kind with
    | token kind => exact ⟨[_], rfl, rfl⟩
    | _ => exact ⟨[], rfl, rfl⟩
  · rw [fault?, scan_append found]
    rfl

theorem spells_token {c : Char} {body rest : List Char} {kind : TokenKind}
    (found : Lexeme.next c (body ++ rest) = .ok (.token kind, body.length)) :
    Spells (c :: body) [⟨kind, String.ofList (Lexeme.text ⟨.token kind, c :: body⟩)⟩] rest :=
  spells_lexeme found

/-! ## Blanks -/

theorem spells_takeWhile (text : List Char) :
    Spells (text.takeWhile isBlank) [] (text.dropWhile isBlank) := by
  cases blanks : text.takeWhile isBlank with
  | nil => exact Spells.nil _
  | cons c body =>
      have split : text = c :: (body ++ text.dropWhile isBlank) := by
        rw [← List.cons_append, ← blanks, List.takeWhile_append_dropWhile]
      have blank : isBlank c = true := List.mem_takeWhile_imp (blanks ▸ List.mem_cons_self)
      have inner : (body ++ text.dropWhile isBlank).takeWhile isBlank = body := by
        rw [split, List.takeWhile_cons_of_pos blank] at blanks
        exact (List.cons.inj blanks).2
      have found : Lexeme.next c (body ++ text.dropWhile isBlank) = .ok (.blank, body.length) := by
        rw [Lexeme.next, if_pos blank, inner]
      exact spells_lexeme found

theorem spells_blank {c : Char} (blank : isBlank c = true) (rest : List Char) :
    Spells [c] [] rest := by
  have whole := spells_takeWhile (c :: rest)
  have behind := spells_takeWhile rest
  rw [List.takeWhile_cons_of_pos blank, List.dropWhile_cons_of_pos blank] at whole
  have split : [c] ++ rest = c :: rest.takeWhile isBlank ++ rest.dropWhile isBlank := by
    simp
  constructor
  · intro start
    have skipped := behind.skips (start + 1)
    rw [List.takeWhile_append_dropWhile] at skipped
    refine ⟨[], rfl, ?_⟩
    rw [split, whole.skips, List.nil_append, List.length_singleton, skipped, List.length_cons,
      Nat.add_right_comm, Nat.add_assoc]
  · have behind := behind.fault?
    rw [List.takeWhile_append_dropWhile] at behind
    rw [split, whole.fault?, behind]

theorem spells_space (rest : List Char) : Spells [' '] [] rest := spells_blank isBlank_space rest

theorem spells_blanks {blanks : List Char} (blank : ∀ c ∈ blanks, isBlank c = true)
    (rest : List Char) : Spells blanks [] rest := by
  induction blanks with
  | nil => exact Spells.nil rest
  | cons c others induction =>
      exact Spells.append (spells_blank (blank c List.mem_cons_self) _)
        (induction fun c member => blank c (List.mem_cons_of_mem _ member))

/-! ## Tokens -/

theorem starts_visible {c : Char} (start : Identifier.starts c = true) :
    isBlank c = false ∧ c ≠ '/' ∧ c ≠ '#' ∧ c ≠ ':' := by
  have noBlank : blanks.all (fun blank => !Identifier.starts blank) = true := by decide
  refine ⟨?_, ?_, ?_, ?_⟩
  · cases blank : isBlank c with
    | false => rfl
    | true =>
        have noStart := List.all_eq_true.mp noBlank c (List.contains_iff_mem.mp blank)
        rw [start] at noStart
        cases noStart
  all_goals
    intro equal
    rw [equal] at start
    revert start
    decide

theorem next_identifier {c : Char} {body rest : List Char} (word : Identifier.IsWord (c :: body))
    (ends : Identifier.Ends rest) :
    Lexeme.next c (body ++ rest) = .ok (.token .identifier, body.length) := by
  have following := (Identifier.following_append ends c body).trans word
  rcases starts_visible (Identifier.starts_of_following word) with
    ⟨visible, noSlash, noSign, noColon⟩
  simp [Lexeme.next, visible, noSlash, noSign, noColon, following]

theorem spells_mark {c : Char} (mark : isBlank c = false ∧ Identifier.starts c = false ∧
    c ≠ '/' ∧ c ≠ '#' ∧ c ≠ ':') (rest : List Char) :
    Spells [c] [⟨Lexeme.punctuation c, String.singleton c⟩] rest := by
  rcases mark with ⟨visible, noStart, noPrefix⟩
  have plain : Lexeme.text ⟨.token (Lexeme.punctuation c), [c]⟩ = [c] := by
    unfold Lexeme.punctuation
    split <;> rfl
  have following : Identifier.following c rest = none := by
    cases found : Identifier.following c rest with
    | none => rfl
    | some count =>
        rw [Identifier.starts_of_following found] at noStart
        cases noStart
  have found : Lexeme.next c ([] ++ rest) = .ok (.token (Lexeme.punctuation c), 0) := by
    simp [Lexeme.next, visible, noPrefix, following]
  have spells := spells_token found
  rwa [plain] at spells

theorem spells_pathSeparator (rest : List Char) :
    Spells "::".toList [⟨.pathSeparator, "::"⟩] rest :=
  @spells_token ':' [':'] rest .pathSeparator rfl

/-! ## From end to end -/

/-- Whether a text spells words that reach from its first character to its last. -/
structure Fills (text : List Char) (spelled : List Word) (rest : List Char) : Prop where
  tokens : ∀ start, ∃ front : List Token, front.map Token.word = spelled ∧
    Token.span? front = some ⟨start, start + text.length⟩ ∧
      tokens start (text ++ rest) = front ++ Text.tokens (start + text.length) rest
  fault? : fault? (text ++ rest) = Text.fault? rest

theorem Fills.spells {text rest : List Char} {spelled : List Word}
    (fills : Fills text spelled rest) : Spells text spelled rest := by
  refine ⟨fun start => ?_, fills.fault?⟩
  rcases fills.tokens start with ⟨front, words, _, equal⟩
  exact ⟨front, words, equal⟩

theorem Fills.join {first between second rest : List Char} {front back : List Word}
    (before : Fills first front (between ++ second ++ rest))
    (gap : Spells between [] (second ++ rest)) (behind : Fills second back rest) :
    Fills (first ++ (between ++ second)) (front ++ back) rest := by
  have whole := before.spells.append (gap.append behind.spells)
  constructor
  · intro start
    rcases before.tokens start with ⟨tokens, rfl, reaches, equal⟩
    have equal' := gap.skips (start + first.length)
    rcases behind.tokens (start + first.length + between.length) with
      ⟨others, rfl, reaches', equal''⟩
    refine ⟨tokens ++ others, List.map_append, ?_, ?_⟩
    · rw [Token.span?_append reaches reaches']
      simp only [List.length_append, Nat.add_assoc]
    · simp only [List.append_assoc] at equal equal' equal'' ⊢
      rw [equal, equal', equal'']
      simp only [List.length_append, Nat.add_assoc]
  · rw [whole.fault?]

theorem start_of_mem_head_tokens {c : Char} (visible : isBlank c = false) (noSlash : c ≠ '/')
    (rest : List Char) (start : Nat) :
    ∀ token ∈ (tokens start (c :: rest)).head?, token.start = start := by
  rw [tokens, Lexeme.scan]
  intro token first
  split at first
  · cases first
  · next kind count equal =>
      cases Lexeme.found_of_next equal with
      | blank _ blank =>
          rw [visible] at blank
          cases blank
      | lineComment | blockComment => exact absurd rfl noSlash
      | _ =>
          cases first
          rfl

theorem fills_token {c : Char} {body rest : List Char} {kind : TokenKind}
    (found : Lexeme.next c (body ++ rest) = .ok (.token kind, body.length)) :
    Fills (c :: body) [⟨kind, String.ofList (Lexeme.text ⟨.token kind, c :: body⟩)⟩] rest :=
  ⟨fun start => ⟨[_], rfl, rfl, tokens_token found start⟩, (spells_token found).fault?⟩

theorem Fills.tokens_eq {text rest : List Char} {word : Word} (fills : Fills text [word] rest)
    (start : Nat) :
    Text.tokens start (text ++ rest) =
      ⟨word.kind, word.text, start, start + text.length⟩ ::
        Text.tokens (start + text.length) rest := by
  rcases fills.tokens start with ⟨front, words, span, equal⟩
  rcases List.map_eq_singleton_iff.mp words with ⟨token, rfl, rfl⟩
  have place := Option.some.inj span
  have single : token = ⟨token.kind, token.text, start, start + text.length⟩ := by
    rcases token with ⟨kind, content, first, last⟩
    rw [Token.mk.injEq]
    exact ⟨rfl, rfl, congrArg Span.start place, congrArg Span.stop place⟩
  rw [equal, single]
  rfl

theorem fills_identifier {name : String} (word : Identifier.IsWord name.toList)
    {rest : List Char} (ends : Identifier.Ends rest) :
    Fills name.toList [⟨.identifier, name⟩] rest := by
  cases text : name.toList with
  | nil => rw [text] at word; cases word
  | cons c body =>
      rw [text] at word
      have fills := fills_token (next_identifier word ends)
      rwa [Lexeme.text, ← text, String.ofList_toList, text] at fills

theorem spells_identifier {name : String} (word : Identifier.IsWord name.toList)
    {rest : List Char} (ends : Identifier.Ends rest) :
    Spells name.toList [⟨.identifier, name⟩] rest :=
  (fills_identifier word ends).spells

theorem spells_word {name : String} (word : Identifier.IsWord name.toList) (c : Char)
    (ends : Identifier.continues c = false ∧ c ≠ '#') (rest : List Char) :
    Spells name.toList [⟨.identifier, name⟩] (c :: rest) :=
  spells_identifier word (Identifier.ends_cons ends rest)

theorem spells_spaced {name : String} (word : Identifier.IsWord name.toList) (rest : List Char) :
    Spells (name.toList ++ [' ']) [⟨.identifier, name⟩] rest :=
  (spells_word word ' ' (by decide) rest).append (spells_space rest)

theorem fills_of_spells {c : Char} {body rest : List Char} {spelled : List Word}
    (visible : isBlank c = false) (noSlash : c ≠ '/')
    (spells : Spells (c :: body) spelled (';' :: rest)) :
    Fills (c :: body ++ [';']) (spelled ++ [⟨.semicolon, ";"⟩]) rest := by
  have ending : Spells [';'] [⟨.semicolon, ";"⟩] rest := @spells_mark ';' (by decide) rest
  have last : ∀ start, tokens start (';' :: rest) =
      ⟨.semicolon, ";", start, start + 1⟩ :: tokens (start + 1) rest :=
    @tokens_token ';' [] rest .semicolon rfl
  constructor
  · intro start
    rcases spells.tokens start with ⟨front, rfl, equal⟩
    rw [last] at equal
    let stop := start + (c :: body).length
    refine ⟨front ++ [⟨.semicolon, ";", stop, stop + 1⟩], by simp [Token.word], ?_, ?_⟩
    · have first := start_of_mem_head_tokens visible noSlash (body ++ ';' :: rest) start
      rw [← List.cons_append, equal] at first
      apply Token.span?_eq_some.mpr
      refine ⟨?_, _, List.getLast?_concat, ?_⟩
      · cases front with
        | nil => exact ⟨_, rfl, first _ rfl⟩
        | cons token others => exact ⟨token, rfl, first token rfl⟩
      · simp [stop, Nat.add_assoc]
    · rw [List.append_assoc, List.singleton_append, equal]
      simp [stop, Nat.add_assoc]
  · rw [(spells.append ending).fault?]

theorem fills_attribute {body : List Char} (enclosed : Lexeme.Encloses 0 false body)
    (rest : List Char) :
    Fills ('#' :: '[' :: body ++ [']'])
      [⟨.attribute, String.ofList (collapse body)⟩] rest := by
  have found : Lexeme.next '#' ('[' :: (body ++ [']']) ++ rest) =
      .ok (.token .attribute, ('[' :: (body ++ [']'])).length) := by
    have length := Lexeme.attributeLength_append enclosed rest
    rw [List.cons_append, List.append_assoc, List.singleton_append,
      Lexeme.next_outerAttribute length]
    simp [Nat.add_comm]
  have fills := fills_token found
  rwa [Lexeme.text_outerAttribute] at fills

end Text

/-! ## What is read -/

/-- Whether a text can be what the brackets of an attribute are read as. -/
def Metadata.IsAttribute (body : String) : Prop :=
  Lexeme.Encloses 0 false body.toList ∧ Text.collapse body.toList = body.toList

theorem Metadata.fills_bracketed {body : String} (written : IsAttribute body)
    (rest : List Char) :
    Text.Fills (bracketed body).toList [⟨.attribute, body⟩] rest := by
  have fills := Text.fills_attribute written.1 rest
  rw [written.2, String.ofList_toList] at fills
  simpa [bracketed] using fills

/-- The text of a token of this kind, if the kind decides it. -/
def TokenKind.mark? : TokenKind → Option String
  | .pathSeparator => some "::"
  | .openBrace => some "\x7b"
  | .closeBrace => some "\x7d"
  | .comma => some ","
  | .star => some "*"
  | .semicolon => some ";"
  | .openParenthesis => some "("
  | .closeParenthesis => some ")"
  | .identifier | .attribute | .innerAttribute | .other => none

/-- Whether a word can be read from a text, as far as its kind says. -/
structure Word.IsRead (word : Word) : Prop where
  isWord : word.kind = .identifier → Identifier.IsWord word.text.toList
  isAttribute : word.kind = .attribute → Metadata.IsAttribute word.text
  isMark : ∀ mark, word.kind.mark? = some mark → word.text = mark

theorem Word.IsRead.eq_mark {word : Word} (read : word.IsRead) {kind : TokenKind}
    (same : word.kind = kind) {mark : String} (decided : kind.mark? = some mark) :
    word = ⟨kind, mark⟩ := by
  rcases word with ⟨kind', text⟩
  cases same
  exact congrArg (Word.mk kind') (read.isMark mark decided)

namespace Lexeme

theorem isRead_punctuation (c : Char) :
    Word.IsRead ⟨punctuation c, String.ofList (text ⟨.token (punctuation c), [c]⟩)⟩ := by
  unfold punctuation
  split <;> exact ⟨nofun, nofun, by simp [TokenKind.mark?, text]⟩

theorem isAttribute_of_next {c : Char} {rest : List Char} {kind : TokenKind} {count : Nat}
    (found : next c rest = .ok (.token kind, count))
    (bracketed : kind = .attribute ∨ kind = .innerAttribute) :
    Metadata.IsAttribute (String.ofList (text ⟨.token kind, c :: rest.take count⟩)) := by
  have collapsed : ∀ {body : List Char}, Encloses 0 false body →
      Metadata.IsAttribute (String.ofList (Text.collapse body)) := by
    intro body enclosed
    rw [Metadata.IsAttribute, String.toList_ofList]
    exact ⟨encloses_collapse enclosed, Text.collapse_collapse body⟩
  cases found_of_next found with
  | outerAttribute closed =>
      rcases outerAttribute_take closed with ⟨body, enclosed, source⟩
      rw [source, text_outerAttribute]
      exact collapsed enclosed
  | innerAttribute closed =>
      rcases innerAttribute_take closed with ⟨body, enclosed, source⟩
      rw [source, text_innerAttribute]
      exact collapsed enclosed
  | mark =>
      unfold punctuation at bracketed
      split at bracketed <;> simp at bracketed
  | _ => simp at bracketed

theorem isRead_of_next {c : Char} {rest : List Char} {kind : TokenKind} {count : Nat}
    (found : next c rest = .ok (.token kind, count)) :
    Word.IsRead ⟨kind, String.ofList (text ⟨.token kind, c :: rest.take count⟩)⟩ := by
  cases found_of_next found with
  | outerAttribute => exact ⟨nofun, fun _ => isAttribute_of_next found (.inl rfl), nofun⟩
  | identifier following =>
      refine ⟨fun _ => ?_, nofun, nofun⟩
      rw [text, String.toList_ofList]
      exact (Identifier.isWord_take following).2
  | innerAttribute => exact ⟨nofun, nofun, nofun⟩
  | pathSeparator => exact ⟨nofun, nofun, by simp [TokenKind.mark?, text]⟩
  | mark => exact isRead_punctuation c

theorem exists_next_of_word? {text : List Char} {lexeme : Lexeme} (member : lexeme ∈ (scan text).1)
    {word : Word} (found : lexeme.word? = some word) :
    ∃ c rest kind count, next c rest = .ok (.token kind, count) ∧
      word = ⟨kind, String.ofList (Lexeme.text ⟨.token kind, c :: rest.take count⟩)⟩ := by
  fun_induction scan text with
  | case1 => cases member
  | case2 => cases member
  | case3 c rest kind count equal others induction =>
      rcases List.mem_cons.mp member with rfl | inside
      · unfold word? at found
        split at found
        · next kind' isToken =>
            cases isToken
            cases found
            exact ⟨c, rest, kind', count, equal, rfl⟩
        · cases found
      · exact induction inside

end Lexeme

theorem Text.exists_next_of_mem_words {text : List Char} {word : Word} (member : word ∈ words text) :
    ∃ c rest kind count, Lexeme.next c rest = .ok (.token kind, count) ∧
      word = ⟨kind, String.ofList (Lexeme.text ⟨.token kind, c :: rest.take count⟩)⟩ := by
  rcases List.mem_filterMap.mp member with ⟨lexeme, inside, found⟩
  exact Lexeme.exists_next_of_word? inside found

theorem Text.isRead_of_mem_words {text : List Char} {word : Word} (member : word ∈ words text) :
    word.IsRead := by
  rcases exists_next_of_mem_words member with ⟨c, rest, kind, count, found, rfl⟩
  exact Lexeme.isRead_of_next found

end ImportBlock
