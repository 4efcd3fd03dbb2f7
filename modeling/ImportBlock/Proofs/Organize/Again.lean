import ImportBlock.Proofs.Organize.Source
import ImportBlock.Proofs.Statement.Stitch

/-! Organizing a text twice. The block that was written is found again and written the same. If
nothing was written in its place, what stood behind the block stands behind the preamble. -/

namespace ImportBlock

theorem eq_ok_of_mapError {ε ε' α : Type} {f : ε → ε'} {result : Except ε α} {value : α}
    (success : result.mapError f = .ok value) : result = .ok value := by
  cases result with
  | error _ => cases success
  | ok _ => exact congrArg Except.ok (Except.ok.inj success)

theorem toOption_eq_some {ε α : Type} {result : Except ε α} {value : α} :
    result.toOption = some value ↔ result = .ok value := by
  cases result <;> simp [Except.toOption]

namespace MergedSet

theorem sections_congr {left right : MergedSet} (same : left.leaves = right.leaves)
    (config : Config) : left.sections config = right.sections config := by
  rw [sections, sections, items, items, same]

end MergedSet

/-- The block that statements become is a text of items, or empty. Statements that say what these
items do become the same block. -/
theorem exists_phrases_of_organizedBlock {config : Config} {statements : List Statement}
    (read : ∀ statement ∈ statements, statement.metadata.IsRead ∧ statement.tree.IsRead)
    {block : String} (success : organizedBlock config statements = .ok block) :
    ∃ items : List ItemPhrase, (∀ item ∈ items, item.IsFormed) ∧
      (block = "" ∨ ∀ rest, Text.Fills block.toList (items.flatMap ItemPhrase.words) rest) ∧
      ∀ again : List Statement, again.map Statement.content = items.map ItemPhrase.content →
        organizedBlock config again = .ok block := by
  rcases exists_of_bind_eq_ok success with ⟨forest, formed, success⟩
  rcases exists_of_bind_eq_ok success with ⟨merged, succeeded, equal⟩
  cases equal
  have formed := eq_ok_of_mapError formed
  have succeeded := eq_ok_of_mapError succeeded
  have legal : ∀ leaf ∈ merged.leaves,
      (leaf.Legal ∧ leaf.metadata.IsRead) ∧ leaf.canonical = leaf := by
    apply MergedSet.legal_of_leaves _ succeeded
    intro other member
    rw [List.mem_singleton.mp member]
    exact Forest.legal_of_ofStatements read formed
  rcases MergedSet.exists_sections_isWrittenAs (fun leaf member => (legal leaf member).1) config with
    ⟨results, written, _, fills⟩
  rcases WrittenItem.exists_phrases written.read with ⟨items, allFormed, contents, words⟩
  refine ⟨items, allFormed, ?_, ?_⟩
  · rwa [words]
  · intro again same
    have legal' : ∀ leaf ∈ merged.leaves, leaf.Legal ∧ leaf.canonical = leaf :=
      fun leaf member => ⟨(legal leaf member).1.1, (legal leaf member).2⟩
    rcases MergedSet.exists_merge_of_isWrittenAs succeeded legal' written (same.trans contents)
      (some 0) with ⟨forest', formed', merged', succeeded', leaves⟩
    rw [organizedBlock, formed']
    change (MergedSet.merge [forest'] config.absorbUnaliased).mapError ImportError.conflict >>= _ = _
    rw [succeeded', ← MergedSet.sections_congr leaves config]
    rfl

/-! ## Behind a preamble -/

theorem organizeSource_of_span_eq_none (config : Config) {text : String} {statements : List Statement}
    (scanned : Statement.scan text = .ok statements) (apart : blockSpan? statements = none) :
    organizeSource config text = .ok text := by
  simp only [organizeSource, scanned, Except.mapError, bind, Except.bind, apart]
  rfl

namespace Text

theorem IsPreamble.exists_tokens_shift {before : List Char} (preamble : IsPreamble before)
    (behind : List Char) :
    ∃ inner, tokens 0 (before ++ behind) =
        inner ++ (tokens 0 behind).map (Token.shift before.length) ∧
      (∀ token ∈ inner, token.kind = .innerAttribute) ∧
        fault? (before ++ behind) = fault? behind := by
  rw [← tokens_add, Nat.zero_add]
  exact preamble.exists_tokens behind

end Text

namespace Text.OpensWith

variable {before behind : List Char} {items : List ItemPhrase} {inner front back : List Token}

theorem of_preamble (preamble : IsPreamble before) (opens : OpensWith behind items inner front back) :
    ∃ outer, OpensWith (before ++ behind) items outer (front.map (Token.shift before.length))
      (back.map (Token.shift before.length)) := by
  rcases preamble.exists_tokens_shift behind with ⟨outer, whole, passed, faults⟩
  refine ⟨outer ++ inner.map (Token.shift before.length), opens.formed, ?_, ?_, ?_, ?_, ?_⟩
  · rw [whole, opens.tokens, List.map_append, List.map_append, List.append_assoc]
  · intro token member
    rcases List.mem_append.mp member with first | second
    · exact passed token first
    · rcases List.mem_map.mp second with ⟨original, lies, rfl⟩
      exact opens.passed original lies
  · intro token found
    rw [← List.map_append, List.head?_map] at found
    rcases Option.map_eq_some_iff.mp found with ⟨original, first, rfl⟩
    exact opens.stops original first
  · rw [Token.map_word_map_shift, opens.words]
  · rw [SourceItem.begins_congr (Token.map_word_map_shift before.length back), faults]
    exact opens.quiet

theorem behind_preamble (preamble : IsPreamble before)
    (opens : OpensWith (before ++ behind) items inner front back) :
    ∃ inner front back, OpensWith behind items inner front back := by
  rcases preamble.exists_tokens_shift behind with ⟨outer, whole, passed, faults⟩
  have tokens := whole.symm.trans opens.tokens
  have rest : ∃ others, (Text.tokens 0 behind).map (Token.shift before.length) =
      others ++ (front ++ back) ∧ ∀ token ∈ others, token.kind = .innerAttribute := by
    rcases List.append_eq_append_iff.mp tokens with ⟨others, rfl, equal⟩ | ⟨others, rfl, equal⟩
    · exact ⟨others, equal, fun token member => opens.passed token (List.mem_append_right _ member)⟩
    · cases others with
      | nil => exact ⟨[], equal.symm, nofun⟩
      | cons token others =>
          have stops := opens.stops
          rw [equal] at stops
          exact absurd (passed token (by simp)) (stops token rfl)
  rcases rest with ⟨others, equal, othersPassed⟩
  rcases List.map_eq_append_iff.mp equal with ⟨inner', both, split, rfl, read⟩
  rcases List.map_eq_append_iff.mp read with ⟨front', back', rfl, rfl, rfl⟩
  refine ⟨inner', front', back', opens.formed, split, ?_, ?_, ?_, ?_⟩
  · exact fun token member =>
      othersPassed (token.shift before.length) (List.mem_map_of_mem member)
  · intro token found
    apply opens.stops (token.shift before.length)
    rw [← List.map_append, List.head?_map, Option.mem_def.mp found]
    rfl
  · rw [← opens.words, Token.map_word_map_shift]
  · rw [← faults, ← SourceItem.begins_congr (Token.map_word_map_shift before.length back')]
    exact opens.quiet

end Text.OpensWith

namespace Statement

/-- The items at the top of a text are read behind a preamble too. -/
theorem exists_scan_of_preamble {before behind : List Char} (preamble : Text.IsPreamble before)
    {statements : List Statement} (success : scan (String.ofList behind) = .ok statements) :
    ∃ moved, scan (String.ofList (before ++ behind)) = .ok moved ∧
      moved.map content = statements.map content ∧
        blockSpan? moved = (blockSpan? statements).map (Span.shift before.length) := by
  rcases exists_opensWith_of_scan success with ⟨items, inner, front, back, opens, readOff⟩
  rw [String.toList_ofList] at opens
  rcases opens.of_preamble preamble with ⟨outer, opens'⟩
  rw [← String.toList_ofList (l := before ++ behind)] at opens'
  rcases exists_scan opens' with ⟨moved, read, readOff'⟩
  refine ⟨moved, read, readOff'.contents.trans readOff.contents.symm, ?_⟩
  have reaches := Token.span?_map_shift before.length front
  rcases exists_span_of_cover readOff.cover with ⟨rfl, rfl⟩ | ⟨span, whole, stretch⟩
  · rcases exists_span_of_cover readOff'.cover with ⟨rfl, _⟩ | ⟨span, _, stretch⟩
    · rfl
    · cases stretch
  · rw [stretch] at reaches
    rcases exists_span_of_cover readOff'.cover with ⟨_, none⟩ | ⟨span', whole', stretch'⟩
    · rw [none] at reaches
      cases reaches
    · rw [whole, whole', ← stretch', reaches]

theorem exists_scan_behind_preamble {before behind : List Char} (preamble : Text.IsPreamble before)
    {moved : List Statement} (success : scan (String.ofList (before ++ behind)) = .ok moved) :
    ∃ statements, scan (String.ofList behind) = .ok statements := by
  rcases exists_opensWith_of_scan success with ⟨items, inner, front, back, opens, _⟩
  rw [String.toList_ofList] at opens
  rcases opens.behind_preamble preamble with ⟨inner', front', back', opens'⟩
  rw [← String.toList_ofList (l := behind)] at opens'
  rcases exists_scan opens' with ⟨statements, read, _⟩
  exact ⟨statements, read⟩

end Statement

/-- A preamble in front of a text stays, and the text behind it is organized as it is by itself. -/
theorem organizeSource_of_preamble (config : Config) {before : List Char}
    (preamble : Text.IsPreamble before) (behind : List Char) :
    (organizeSource config (String.ofList (before ++ behind))).toOption =
      (organizeSource config (String.ofList behind)).toOption.map (String.ofList before ++ ·) := by
  cases scanned : Statement.scan (String.ofList behind) with
  | error error =>
      have alone : organizeSource config (String.ofList behind) = .error (.syntactic error) := by
        rw [organizeSource, scanned]
        rfl
      rw [alone]
      cases whole : organizeSource config (String.ofList (before ++ behind)) with
      | error _ => rfl
      | ok text =>
          rcases exists_of_bind_eq_ok whole with ⟨moved, read, _⟩
          rcases Statement.exists_scan_behind_preamble preamble (eq_ok_of_mapError read) with
            ⟨statements, read⟩
          rw [scanned] at read
          cases read
  | ok statements =>
      rcases Statement.exists_scan_of_preamble preamble scanned with ⟨moved, read, contents, block⟩
      cases stands : blockSpan? statements with
      | none =>
          rw [stands] at block
          rw [organizeSource_of_span_eq_none config read block,
            organizeSource_of_span_eq_none config scanned stands, String.ofList_append]
          rfl
      | some span =>
          rw [stands] at block
          have front : (before ++ behind).take (span.start + before.length) =
              before ++ behind.take span.start := by
            rw [Nat.add_comm, List.take_length_add_append]
          have back : (before ++ behind).drop (span.stop + before.length) =
              behind.drop span.stop := by
            rw [Nat.add_comm, List.drop_length_add_append]
          rw [organizeSource_of_scan config read block, organizeSource_of_scan config scanned stands,
            organizedBlock_congr config contents, String.toList_ofList, String.toList_ofList,
            Span.shift, front, back]
          cases organizedBlock config statements with
          | error _ => rfl
          | ok text => simp [Except.map, Except.toOption, String.append_assoc]

/-! ## The second run -/

/-- A text that begins with neither an item nor an inner attribute stays. -/
theorem organizeSource_of_quiet (config : Config) {text : List Char} (quiet : Text.IsQuiet text)
    (apart : ∀ token ∈ (Text.tokens 0 text).head?, token.kind ≠ .innerAttribute) :
    organizeSource config (String.ofList text) = .ok (String.ofList text) := by
  rw [← String.toList_ofList (l := text)] at quiet apart
  have opens : Text.OpensWith (String.ofList text).toList [] [] [] _ :=
    ⟨nofun, rfl, nofun, apart, rfl, quiet⟩
  rcases Statement.exists_scan opens with ⟨statements, scanned, readOff⟩
  have contents := readOff.contents
  rw [List.map_nil, List.map_eq_nil_iff] at contents
  exact organizeSource_of_span_eq_none config scanned (by rw [contents]; rfl)

theorem organizeSource_of_organizedBlock {config : Config} {before behind : List Char}
    (preamble : Text.IsPreamble before) (quiet : Text.IsQuiet behind) {statements : List Statement}
    (read : ∀ statement ∈ statements, statement.metadata.IsRead ∧ statement.tree.IsRead)
    {block : String} (organized : organizedBlock config statements = .ok block) (some : block ≠ "") :
    organizeSource config (String.ofList before ++ block ++ String.ofList behind) =
      .ok (String.ofList before ++ block ++ String.ofList behind) := by
  rcases exists_phrases_of_organizedBlock read organized with ⟨items, formed, none | fills, again⟩
  · exact absurd none some
  · rcases Statement.exists_scan_of_fills preamble formed (fills _) quiet with
      ⟨statements', _, contents, _⟩
    have moved := organizeSource_of_fills config preamble formed (fills _) quiet contents
    rw [again statements' contents] at moved
    have joined : String.ofList before ++ block ++ String.ofList behind =
        String.ofList (before ++ (block.toList ++ behind)) := by
      simp [String.append_assoc]
    rw [joined, moved, ← joined]
    rfl

/-- Where nothing was written, the text behind the block has to stay by itself. -/
theorem organizeSource_append_eq_self (config : Config) {before : List Char}
    (preamble : Text.IsPreamble before) (behind : List Char) :
    organizeSource config (String.ofList (before ++ behind)) =
        .ok (String.ofList (before ++ behind)) ↔
      organizeSource config (String.ofList behind) = .ok (String.ofList behind) := by
  rw [← toOption_eq_some, organizeSource_of_preamble config preamble, Option.map_eq_some_iff,
    String.ofList_append]
  simp only [String.append_right_inj, exists_eq_right, toOption_eq_some]

/-- What organizing gives stays as it is when it is organized again, with one exception. Where
nothing is left of the block and an inner attribute stood behind it, this one is passed over, and the
text from there on stays only if it does so by itself. -/
theorem organizeSource_organizeSource {config : Config} {text once : String}
    (success : organizeSource config text = .ok once) :
    organizeSource config once = .ok once ↔
      ∀ statements span, Statement.scan text = .ok statements →
        blockSpan? statements = some span → organizedBlock config statements = .ok "" →
          (∃ token ∈ (TokenStream.ofText (text.toList.drop span.stop)).tokens.head?,
            token.kind = .innerAttribute) →
          organizeSource config (String.ofList (text.toList.drop span.stop)) =
            .ok (String.ofList (text.toList.drop span.stop)) := by
  rcases exists_of_bind_eq_ok success with ⟨statements, scanned, whole⟩
  have scanned := eq_ok_of_mapError scanned
  have only : ∀ others, Statement.scan text = .ok others → others = statements :=
    fun others read => Except.ok.inj (read.symm.trans scanned)
  cases stands : blockSpan? statements with
  | none =>
      have equal := organizeSource_of_span_eq_none config scanned stands
      rw [Except.ok.inj (success.symm.trans equal)]
      refine iff_of_true equal ?_
      intro others span read block
      rw [only others read, stands] at block
      cases block
  | some span =>
      rcases Statement.cut_of_scan scanned stands with ⟨preamble, quiet⟩
      rw [organizeSource_of_scan config scanned stands] at success
      cases organized : organizedBlock config statements with
      | error _ =>
          rw [organized] at success
          cases success
      | ok block =>
          rw [organized] at success
          rw [← Except.ok.inj success]
          dsimp only
          by_cases empty : block = ""
          · rw [empty, String.append_empty, ← String.ofList_append,
              organizeSource_append_eq_self config preamble]
            constructor
            · intro stays others span' read block' _ _
              rw [only others read, stands] at block'
              cases block'
              exact stays
            · intro stays
              by_cases opens : ∃ token ∈ (Text.tokens 0 (text.toList.drop span.stop)).head?,
                  token.kind = .innerAttribute
              · exact stays statements span scanned stands (empty ▸ organized) opens
              · push Not at opens
                exact organizeSource_of_quiet config quiet opens
          · refine iff_of_true (organizeSource_of_organizedBlock preamble quiet
              (Statement.isRead_scan scanned) organized empty) ?_
            intro others span' read _ none
            rw [only others read, organized] at none
            exact absurd (Except.ok.inj none) empty

theorem organizeSource_organizeSource_beside_function :
    organizeSource .default "use c;use b::\x7be, d\x7d;use c::a;\nfn f" =
        .ok "use b::\x7bd, e\x7d;\nuse c;\nuse c::a;\nfn f" ∧
      organizeSource .default "use b::\x7bd, e\x7d;\nuse c;\nuse c::a;\nfn f" =
        .ok "use b::\x7bd, e\x7d;\nuse c;\nuse c::a;\nfn f" := by
  have organized : organizeSource .default "use c;use b::\x7be, d\x7d;use c::a;\nfn f" =
      .ok "use b::\x7bd, e\x7d;\nuse c;\nuse c::a;\nfn f" := by cbv
  have read : Statement.scan "use c;use b::\x7be, d\x7d;use c::a;\nfn f" =
      .ok [⟨.name "c", {}, some 0, some ⟨0, 6⟩⟩,
        ⟨.path "b" (.group [.name "e", .name "d"]), {}, some 0, some ⟨6, 20⟩⟩,
        ⟨.path "c" (.name "a"), {}, some 0, some ⟨20, 29⟩⟩] := by cbv
  have block : organizedBlock .default [⟨.name "c", {}, some 0, some ⟨0, 6⟩⟩,
        ⟨.path "b" (.group [.name "e", .name "d"]), {}, some 0, some ⟨6, 20⟩⟩,
        ⟨.path "c" (.name "a"), {}, some 0, some ⟨20, 29⟩⟩] =
      .ok "use b::\x7bd, e\x7d;\nuse c;\nuse c::a;" := by cbv
  refine ⟨organized, (organizeSource_organizeSource organized).mpr ?_⟩
  intro statements span scanned _ empty
  rw [read] at scanned
  rw [← Except.ok.inj scanned, block] at empty
  exact absurd (Except.ok.inj empty) (by decide)

/-- An inner attribute may come to stand where the block was. The items behind it change with the
second run only. -/
theorem organizeSource_organizeSource_beside_attribute :
    organizeSource .default "use \x7b\x7d;\n#![a]\nuse c;\nuse b;" =
        .ok "\n#![a]\nuse c;\nuse b;" ∧
      organizeSource .default "\n#![a]\nuse c;\nuse b;" = .ok "\n#![a]\nuse b;\nuse c;" ∧
      "\n#![a]\nuse b;\nuse c;" ≠ "\n#![a]\nuse c;\nuse b;" := by
  refine ⟨by cbv, by cbv, by decide⟩

end ImportBlock
