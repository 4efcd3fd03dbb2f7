import ImportBlock.Proofs.Frame
import ImportBlock.Proofs.RoundTrip
import ImportBlock.Proofs.Statement.Leading

/-! Organizing a text. It rewrites the use items at the top of the text and nothing else. -/

namespace ImportBlock

/-- Whether no use item begins at the start of a text. -/
def Text.IsQuiet (text : List Char) : Prop :=
  SourceItem.begins (tokens 0 text) = some false ∨
    SourceItem.begins (tokens 0 text) = none ∧ fault? text = none

theorem Text.begins_tokens (start : Nat) (text : List Char) :
    SourceItem.begins (tokens start text) = SourceItem.begins (tokens 0 text) := by
  apply SourceItem.begins_congr
  rw [map_word_tokens, map_word_tokens]

/-- The tokens of items begin with an attribute or a word, and end with a semicolon. -/
theorem ItemPhrase.exists_tokens_eq {items : List ItemPhrase} {tokens : List Token}
    (nonempty : tokens ≠ []) (spelled : tokens.map Token.word = items.flatMap words) :
    ∃ front last, tokens = front ++ [last] ∧ last.word = ⟨.semicolon, ";"⟩ ∧
      ∃ first ∈ front.head?, first.kind = .attribute ∨ first.kind = .identifier := by
  have some : items ≠ [] := by
    rintro rfl
    exact nonempty (List.map_eq_nil_iff.mp spelled)
  have begins : ∃ first rest, items.flatMap words = first :: rest ∧
      (first.kind = .attribute ∨ first.kind = .identifier) := by
    rcases List.exists_cons_of_ne_nil some with ⟨item, others, rfl⟩
    rcases item.exists_words_eq_cons with ⟨first, rest, equal, opens⟩
    exact ⟨first, rest ++ others.flatMap words, by rw [List.flatMap_cons, equal]; rfl, opens⟩
  have ends : ∃ front, items.flatMap words = front ++ [⟨.semicolon, ";"⟩] := by
    rcases (List.eq_nil_or_concat items).resolve_left some with ⟨init, item, rfl⟩
    rcases item.exists_words_eq_concat with ⟨front, equal⟩
    exact ⟨init.flatMap words ++ front, by simp [equal]⟩
  rcases begins with ⟨word, rest, begun, opens⟩
  rcases ends with ⟨words, ended⟩
  rw [ended] at spelled
  rcases List.map_eq_append_iff.mp spelled with ⟨front, final, rfl, rfl, finalWord⟩
  rcases List.map_eq_singleton_iff.mp finalWord with ⟨last, rfl, semicolon⟩
  refine ⟨front, last, rfl, semicolon, ?_⟩
  rw [begun] at ended
  cases front with
  | nil =>
      rw [(List.cons.inj ended).1] at opens
      simp at opens
  | cons first others =>
      rw [(List.cons.inj ended).1] at opens
      exact ⟨first, rfl, opens⟩

theorem ItemPhrase.exists_tokens_of_span {items : List ItemPhrase} {tokens : List Token} {span : Span}
    (reaches : Token.span? tokens = some span)
    (spelled : tokens.map Token.word = items.flatMap words) :
    ∃ front last, tokens = front ++ [last] ∧ last.word = ⟨.semicolon, ";"⟩ ∧ last.stop = span.stop ∧
      ∃ first ∈ front.head?, first.start = span.start ∧
        (first.kind = .attribute ∨ first.kind = .identifier) := by
  have nonempty : tokens ≠ [] := by
    rintro rfl
    cases reaches
  rcases exists_tokens_eq nonempty spelled with ⟨front, last, rfl, semicolon, first, head, opens⟩
  rcases Token.span?_eq_some.mp reaches with ⟨⟨first', head', starts⟩, last', tail', stops⟩
  have sameFirst : first' = first := by
    simpa [Option.mem_def.mp head, eq_comm] using head'
  have sameLast : last' = last := by
    rw [List.getLast?_concat] at tail'
    exact (Option.mem_some_iff.mp tail').symm
  rw [sameFirst] at starts
  rw [sameLast] at stops
  exact ⟨front, last, rfl, semicolon, stops, first, head, starts, opens⟩

/-! ## Where the block stands -/

namespace Statement

/-- Items between a preamble and a text without items at its start are read, and the stretch of their
statements is that of the items. -/
theorem exists_scan_of_fills {before block behind : List Char} (preamble : Text.IsPreamble before)
    {items : List ItemPhrase} (formed : ∀ item ∈ items, item.IsFormed)
    (fills : Text.Fills block (items.flatMap ItemPhrase.words) behind)
    (quiet : Text.IsQuiet behind) :
    ∃ statements, scan (String.ofList (before ++ (block ++ behind))) = .ok statements ∧
      statements.map content = items.map ItemPhrase.content ∧
        blockSpan? statements = some ⟨before.length, before.length + block.length⟩ := by
  rcases preamble.exists_tokens (block ++ behind) with ⟨inner, skipped, passed, faults⟩
  rcases fills.tokens before.length with ⟨front, words, reaches, equal⟩
  rw [equal] at skipped
  let back := Text.tokens (before.length + block.length) behind
  have some : front ≠ [] := by
    intro none
    rw [none] at reaches
    cases reaches
  have stops : ∀ token ∈ (front ++ back).head?, token.kind ≠ .innerAttribute := by
    intro token found
    rcases ItemPhrase.exists_tokens_eq some words with ⟨init, last, rfl, _, first, head, opens⟩
    have same : token = first := by
      simpa [Option.mem_def.mp head, eq_comm] using found
    rcases opens with kind | kind <;> simp [same, kind]
  have ends : SourceItem.begins back = Option.some false ∨ SourceItem.begins back = none ∧
      Text.fault? (before ++ (block ++ behind)) = none := by
    rw [Text.begins_tokens, faults, fills.fault?]
    exact quiet
  have opens : Text.OpensWith (before ++ (block ++ behind)) items inner front back :=
    ⟨formed, skipped, passed, stops, words, ends⟩
  rw [← String.toList_ofList (l := before ++ (block ++ behind))] at opens
  rcases exists_scan opens with ⟨statements, success, readOff⟩
  refine ⟨statements, success, readOff.contents, ?_⟩
  rcases exists_span_of_cover readOff.cover with ⟨_, none⟩ | ⟨span, whole, reaches'⟩
  · rw [none] at reaches
    cases reaches
  · rw [whole, ← reaches', reaches]

theorem isRead_scan {text : String} {statements : List Statement}
    (success : scan text = .ok statements) :
    ∀ statement ∈ statements, statement.metadata.IsRead ∧ statement.tree.IsRead := by
  rcases exists_opensWith_of_scan success with ⟨items, inner, front, back, opens, readOff⟩
  apply isRead_of_contents opens.formed readOff.contents
  intro word member
  rw [← opens.words] at member
  rcases List.mem_map.mp member with ⟨token, inside, rfl⟩
  apply TokenStream.isRead_of_mem_tokens
  change token ∈ Text.tokens 0 text.toList
  rw [opens.tokens]
  exact List.mem_append_right _ (List.mem_append_left _ inside)

/-- The items at the top of a text stand between a preamble and a text without items at its start. -/
theorem cut_of_scan {text : String} {statements : List Statement}
    (success : scan text = .ok statements) {span : Span}
    (stands : blockSpan? statements = some span) :
    Text.IsPreamble (text.toList.take span.start) ∧ Text.IsQuiet (text.toList.drop span.stop) := by
  rcases exists_opensWith_of_scan success with ⟨items, inner, front, back, opens, readOff⟩
  have reaches : Token.span? front = some span := by
    rcases exists_span_of_cover readOff.cover with ⟨rfl, _⟩ | ⟨span', whole, reaches⟩
    · cases stands
    · rwa [← stands, whole]
  rcases ItemPhrase.exists_tokens_of_span reaches opens.words with
    ⟨init, last, rfl, _, stops, first, head, starts, _⟩
  rcases List.head?_eq_some_iff.mp head with ⟨others, rfl⟩
  have fromFirst : Text.tokens 0 text.toList = inner ++ first :: (others ++ last :: back) := by
    rw [opens.tokens, List.append_assoc, List.singleton_append, List.cons_append]
  have toLast : Text.tokens 0 text.toList = (inner ++ first :: others) ++ last :: back := by
    rw [fromFirst, List.append_assoc, List.cons_append]
  refine ⟨?_, ?_⟩
  · rcases Text.exists_cut fromFirst with ⟨before, _, _, cut⟩
    rw [← starts, cut.starts, Nat.zero_add, cut.split, List.take_left]
    exact cut.preamble opens.passed
  · rcases Text.exists_cut toLast with ⟨before, lexeme, behind, cut⟩
    have around : text.toList.drop last.stop = behind := by
      rw [cut.stops, Nat.zero_add, cut.split, ← List.append_assoc, List.drop_left]
    rw [← stops, around, Text.IsQuiet, ← Text.begins_tokens last.stop, cut.tokens, cut.faults]
    exact opens.quiet

end Statement

/-! ## What the block becomes -/

/-- The block that some statements become. -/
def organizedBlock (config : Config) (statements : List Statement) : Except ImportError String := do
  let forest ← (Forest.ofStatements statements (some 0)).mapError .syntactic
  let merged ← (MergedSet.merge [forest] config.absorbUnaliased).mapError .conflict
  return (merged.sections config).text

theorem organizedBlock_congr (config : Config) {left right : List Statement}
    (same : left.map Statement.content = right.map Statement.content) :
    organizedBlock config left = organizedBlock config right := by
  rw [organizedBlock, Forest.ofStatements_congr same, organizedBlock]

theorem organizeSource_of_scan (config : Config) {text : String} {statements : List Statement}
    (scanned : Statement.scan text = .ok statements) {span : Span}
    (stands : blockSpan? statements = some span) :
    organizeSource config text = (organizedBlock config statements).map fun block =>
      String.ofList (text.toList.take span.start) ++ block ++
        String.ofList (text.toList.drop span.stop) := by
  simp only [organizeSource, organizedBlock, scanned, Except.mapError, bind, Except.bind, stands]
  cases Forest.ofStatements statements (some 0) with
  | error _ => rfl
  | ok forest =>
      dsimp only
      cases MergedSet.merge [forest] config.absorbUnaliased <;> rfl

/-- The text around the block stays. -/
theorem organizeSource_of_fills (config : Config) {before block behind : List Char}
    (preamble : Text.IsPreamble before) {items : List ItemPhrase}
    (formed : ∀ item ∈ items, item.IsFormed)
    (fills : Text.Fills block (items.flatMap ItemPhrase.words) behind)
    (quiet : Text.IsQuiet behind) {statements : List Statement}
    (contents : statements.map Statement.content = items.map ItemPhrase.content) :
    organizeSource config (String.ofList (before ++ (block ++ behind))) =
      (organizedBlock config statements).map fun text =>
        String.ofList before ++ text ++ String.ofList behind := by
  rcases Statement.exists_scan_of_fills preamble formed fills quiet with
    ⟨scanned, success, contents', stands⟩
  have around : (before ++ (block ++ behind)).drop (before.length + block.length) = behind := by
    rw [← List.append_assoc, ← List.length_append, List.drop_left]
  rw [organizeSource_of_scan config success stands, String.toList_ofList, List.take_left, around,
    organizedBlock_congr config (contents'.trans contents.symm)]

/-- Organizing rewrites the block at the top of a text and nothing else: the text in front of it and
the text behind it stay, and play no part in what the block becomes. -/
theorem organizeSource_append (config : Config) {before block behind : String}
    (preamble : Text.IsPreamble before.toList) {statements : List Statement}
    (accepted : Statement.parse block = .ok statements)
    (whole : Token.span? (TokenStream.ofText block.toList).tokens = some ⟨0, block.toList.length⟩)
    (ends : (TokenStream.ofText behind.toList).tokens = [] ∧
        (TokenStream.ofText behind.toList).fault = none ∨
      ∃ first others, (TokenStream.ofText behind.toList).tokens = first :: others ∧
        first.kind ≠ .attribute ∧ first.isWord "pub" = false ∧ first.isWord "use" = false) :
    organizeSource config (before ++ block ++ behind) =
      (organizeSource config block).map fun text => before ++ text ++ behind := by
  rcases Statement.exists_derives_of_parse accepted with ⟨items, derives, contents⟩
  have tokens : (Text.tokens 0 block.toList).map Token.word = items.flatMap ItemPhrase.words :=
    derives.tokens
  have reaches : Token.span? (Text.tokens 0 block.toList) = some ⟨0, block.toList.length⟩ := whole
  have fills : ∀ rest, Text.Fills block.toList (items.flatMap ItemPhrase.words) rest := by
    rcases ItemPhrase.exists_tokens_of_span reaches tokens with
      ⟨front, last, equal, semicolon, stops, first, head, starts, opens⟩
    rw [← tokens]
    exact Text.fills_of_tokens equal head starts opens semicolon stops
  have quiet : Text.IsQuiet behind.toList := by
    rcases ends with ⟨none, readable⟩ | ⟨first, others, equal, noAttribute, noPub, noUse⟩
    · refine .inr ⟨?_, Option.map_eq_none_iff.mp readable⟩
      rw [show Text.tokens 0 behind.toList = [] from none]
      rfl
    · left
      rw [show Text.tokens 0 behind.toList = first :: others from equal, SourceItem.begins,
        List.dropWhile_cons_of_neg (by simpa using noAttribute)]
      simp [noPub, noUse]
  have empty : Text.IsQuiet [] := by
    right
    rw [Text.tokens_nil, Text.fault?_nil]
    exact ⟨rfl, rfl⟩
  have around := organizeSource_of_fills config preamble derives.formed (fills behind.toList) quiet
    contents
  have alone := organizeSource_of_fills config .nil derives.formed (fills []) empty contents
  have text : before ++ block ++ behind =
      String.ofList (before.toList ++ (block.toList ++ behind.toList)) := by
    simp [String.append_assoc]
  rw [List.nil_append, List.append_nil, String.ofList_toList] at alone
  rw [text, around, alone]
  cases organizedBlock config statements with
  | error _ => rfl
  | ok result => simp [Except.map]

theorem organizeSource_append_open_comment :
    organizeSource .default ("#![a] // b\n" ++ "use d;\nuse c::*;" ++ "\nfn e /*") =
      .ok ("#![a] // b\n" ++ "use c::*;\nuse d;" ++ "\nfn e /*") := by
  have preamble : Text.IsPreamble "#![a] // b\n".toList := by
    have enclosed : Lexeme.Encloses 0 false ['a'] := by simp [Lexeme.Encloses]
    exact .innerAttribute enclosed (.blank (by decide)
      (@Text.IsPreamble.lineComment [' ', 'b'] [] (by decide) .nil))
  have organized : organizeSource .default "use d;\nuse c::*;" = .ok "use c::*;\nuse d;" := by cbv
  have derives : ItemPhrase.Derives
      [⟨[], .inherited, false, .name "d"⟩, ⟨[], .inherited, false, .path "c" .glob⟩]
      "use d;\nuse c::*;" :=
    ⟨by simp [ItemPhrase.IsFormed, Visibility.IsFormed], by cbv, by cbv⟩
  rcases Statement.exists_parse_of_derives derives (some 0) with ⟨statements, accepted, _⟩
  rw [organizeSource_append .default preamble accepted (by cbv)
    (.inr ⟨⟨.identifier, "fn", 1, 3⟩, [⟨.identifier, "e", 4, 5⟩], by cbv, by decide, by cbv, by cbv⟩),
    organized]
  rfl

end ImportBlock
