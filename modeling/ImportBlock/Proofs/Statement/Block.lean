import ImportBlock.Proofs.Gap
import ImportBlock.Proofs.Organize.Source

/-! The use items at the top of a text, and the stretches where they stand. Looking ahead ends them
where no item can be read any more, and each of them reads alone what it reads in the text. -/

namespace ImportBlock

namespace Backlog

theorem begins_of_readItem {backlog next : Backlog} {statement : Statement}
    (words : ∀ token ∈ backlog.tokens, token.word.IsRead)
    (success : backlog.readItem = (.ok statement, next)) :
    SourceItem.begins backlog.tokens = some true := by
  rcases exists_phrase_of_readItem words success with ⟨item, front, _, tokens, spelled, _⟩
  rw [← SourceItem.begins_words item (next.tokens.map Token.word)]
  apply SourceItem.begins_congr
  rw [Word.map_word_map_token, tokens, List.map_append, spelled]

theorem exists_error_of_quiet {text : List Char} (quiet : Text.IsQuiet text)
    (fragment : Option Int) :
    ∃ error, ((Cursor.ofText (String.ofList text) fragment).readItem).1 = .error error := by
  let backlog := ofText (String.ofList text) fragment
  have same : ((Cursor.ofText (String.ofList text) fragment).readItem).1 = backlog.readItem.1 := by
    change _ = (ofText (String.ofList text) fragment).readItem.1
    rw [← Cursor.backlog_ofText, ← Cursor.readItem_backlog]
    rfl
  have tokens : backlog.tokens = Text.tokens 0 text := by
    rw [← String.toList_ofList (l := text)]
    rfl
  rw [same]
  rcases read : backlog.readItem with ⟨error | statement, next⟩
  · exact ⟨error, rfl⟩
  · have begun := begins_of_readItem (fun _ member => TokenStream.isRead_of_mem_tokens member) read
    rw [tokens] at begun
    rcases quiet with other | ⟨ended, _⟩
    · rw [begun] at other
      cases other
    · rw [begun] at ended
      cases ended

theorem readLeading_of_readAll {backlog : Backlog}
    (words : ∀ token ∈ backlog.tokens, token.word.IsRead) {statements : List Statement}
    (success : backlog.readAll = .ok statements) : backlog.readLeading = .ok statements := by
  fun_induction readAll backlog generalizing statements with
  | case1 backlog ended =>
      unfold runOut at success
      split at success
      · cases success
      · next readable =>
          cases success
          exact readLeading_eq_nil (.inr ⟨by rw [ended]; rfl, readable⟩)
  | case2 => cases success
  | case3 backlog _ _ _ statement next equal induction =>
      rcases exists_phrase_of_readItem words equal with ⟨_, front, _, tokens, _⟩
      rw [readLeading_of_readItem (begins_of_readItem words equal) equal]
      cases behind : next.readAll with
      | error _ =>
          rw [behind] at success
          cases success
      | ok others =>
          rw [behind] at success
          rw [tokens] at words
          rw [induction (List.forall_mem_append.mp words).2 behind]
          exact success

end Backlog

namespace Statement

/-! ## One item -/

theorem exists_source_of_words {text : List Char} {before front back : List Token} {span : Span}
    {item : ItemPhrase} (tokens : Text.tokens 0 text = before ++ (front ++ back))
    (words : front.map Token.word = item.words) (reaches : Token.span? front = some span) :
    ∃ ahead source behind, text = ahead ++ (source ++ behind) ∧ span.start = ahead.length ∧
      span.stop = span.start + source.length ∧ source ≠ [] ∧
        ∀ rest, Text.Spells source item.words rest := by
  have spelled : front.map Token.word = [item].flatMap ItemPhrase.words := by
    rw [words, List.flatMap_singleton]
  rcases ItemPhrase.exists_tokens_of_span reaches spelled with
    ⟨init, last, rfl, semicolon, stops, first, head, starts, _⟩
  rcases List.head?_eq_some_iff.mp head with ⟨others, rfl⟩
  have fromFirst : Text.tokens 0 text = before ++ first :: (others ++ last :: back) := by
    rw [tokens, List.append_assoc, List.cons_append, List.singleton_append]
  rcases Text.exists_cut_before fromFirst with ⟨ahead, rest, rfl, place, cut⟩
  rw [← List.cons_append] at cut
  rcases Text.exists_spells_of_semicolon cut (congrArg Word.kind semicolon) with
    ⟨body, behind, rfl, lastStarts, lastStops, spells⟩
  refine ⟨ahead, body ++ [';'], behind, by simp, ?_, ?_, by simp, ?_⟩
  · rw [← starts, place, Nat.zero_add]
  · rw [← stops, ← starts, lastStops, lastStarts, List.length_append, List.length_singleton,
      Nat.add_assoc]
  · intro tail
    rw [← words, List.map_append, List.map_singleton, semicolon]
    exact (spells tail).append (Text.spells_mark (by decide) tail)

theorem exists_parse_of_spells {source : List Char} {item : ItemPhrase} (formed : item.IsFormed)
    (spells : Text.Spells source item.words []) :
    ∃ statement, parse (String.ofList source) = .ok [statement] ∧
      statement.content = item.content := by
  have whole : Text.Spells (String.ofList source).toList ([item].flatMap ItemPhrase.words) [] := by
    rwa [String.toList_ofList, List.flatMap_singleton]
  have derives := ItemPhrase.derives_of_spells (List.forall_mem_singleton.mpr formed) whole
  rcases exists_parse_of_derives derives (some 0) with ⟨statements, success, contents⟩
  rcases List.map_eq_singleton_iff.mp contents with ⟨statement, rfl, content⟩
  exact ⟨statement, success, content⟩

/-! ## A run of items -/

/-- Whether statements stand in some stretches of a text, one behind the other with gaps between them,
and are read alike where a stretch is all of the text. -/
structure StandAt (text : List Char) (statements : List Statement) (spans : List Span) : Prop where
  stands : statements.map span = spans.map some
  within : ∀ span ∈ spans, span.start < span.stop ∧ span.stop ≤ text.length
  ordered : spans.Pairwise fun left right => left.stop ≤ right.start
  gaps : spans.IsChain fun left right =>
    Text.IsGap (text.drop right.start) (text.extract left.stop right.start)
  alone : List.Forall₂ (fun statement span => ∃ again,
    parse (String.ofList (text.extract span.start span.stop)) = .ok [again] ∧
      again.content = statement.content) statements spans

theorem StandAt.nil (text : List Char) : StandAt text [] [] where
  stands := rfl
  within := nofun
  ordered := .nil
  gaps := .nil
  alone := .nil

/-- Statements stand where the tokens are that they are read from. -/
theorem ReadOff.exists_standAt {text : List Char} {statements : List Statement}
    {items : List ItemPhrase} {tokens : List Token} (readOff : ReadOff statements items tokens) :
    ∀ {before back : List Token}, Text.tokens 0 text = before ++ (tokens ++ back) →
      ∃ spans, StandAt text statements spans ∧
        (∀ span ∈ spans, ∃ token ∈ tokens, token.start = span.start) ∧
          ∀ span ∈ spans.head?, ∃ token ∈ tokens.head?, token.start = span.start := by
  induction readOff with
  | nil =>
      intro before back given
      exact ⟨[], .nil text, nofun, nofun⟩
  | @cons statement statements item items front others span stands content formed words reaches _
      induction =>
      intro before back given
      have ahead : Text.tokens 0 text = before ++ (front ++ (others ++ back)) := by
        rw [given, List.append_assoc]
      have later : Text.tokens 0 text = (before ++ front) ++ (others ++ back) := by
        rw [ahead, List.append_assoc]
      rcases induction later with ⟨spans, stand, start, opening⟩
      rcases exists_source_of_words ahead words reaches with
        ⟨first, source, rest, split, starts, stops, nonempty, spells⟩
      rcases Token.span?_eq_some.mp reaches with ⟨⟨begin, head, begins⟩, last, final, ends⟩
      rcases List.getLast?_eq_some_iff.mp final with ⟨init, rfl⟩
      have toLast : Text.tokens 0 text = (before ++ init) ++ last :: (others ++ back) := by
        rw [ahead]
        simp
      refine ⟨span :: spans, ⟨?_, ?_, ?_, ?_, ?_⟩, ?_, ?_⟩
      · rw [List.map_cons, List.map_cons, stands, stand.stands]
      · have length := congrArg List.length split
        have positive := List.length_pos_of_ne_nil nonempty
        rw [List.length_append, List.length_append] at length
        exact List.forall_mem_cons.mpr ⟨⟨by omega, by omega⟩, stand.within⟩
      · refine List.pairwise_cons.mpr ⟨?_, stand.ordered⟩
        intro other member
        rcases start other member with ⟨token, inside, same⟩
        rw [← ends, ← same]
        exact Text.stop_le_start toLast (List.mem_append_left back inside)
      · refine List.isChain_cons.mpr ⟨?_, stand.gaps⟩
        intro next found
        rcases opening next found with ⟨token, found', same⟩
        rcases List.head?_eq_some_iff.mp found' with ⟨others', rfl⟩
        rw [← ends, ← same]
        exact Text.isGap_between toLast
      · refine .cons ?_ stand.alone
        rw [split, Text.extract_middle starts stops, content]
        exact exists_parse_of_spells formed (spells [])
      · refine List.forall_mem_cons.mpr ⟨⟨begin, ?_, begins⟩, ?_⟩
        · exact List.mem_append_left _ (List.mem_of_mem_head? head)
        · intro other member
          rcases start other member with ⟨token, inside, same⟩
          exact ⟨token, List.mem_append_right _ inside, same⟩
      · intro other found
        cases found
        refine ⟨begin, ?_, begins⟩
        rw [List.head?_append, Option.mem_def.mp head]
        rfl

theorem StandAt.blockSpan?_eq {text : List Char} {statements : List Statement} {spans : List Span}
    (stand : StandAt text statements spans) {first last : Span} (head : first ∈ spans.head?)
    (final : last ∈ spans.getLast?) : blockSpan? statements = some ⟨first.start, last.stop⟩ := by
  have heads : statements.head?.map span = some (some first) := by
    rw [← List.head?_map, stand.stands, List.head?_map, Option.mem_def.mp head]
    rfl
  have finals : statements.getLast?.map span = some (some last) := by
    rw [← List.getLast?_map, stand.stands, List.getLast?_map, Option.mem_def.mp final]
    rfl
  rcases Option.map_eq_some_iff.mp heads with ⟨one, found, stands⟩
  rcases Option.map_eq_some_iff.mp finals with ⟨other, found', stands'⟩
  simp [blockSpan?, found, found', stands, stands']

/-! ## The top of a text -/

/-- Whether statements are the use items at the top of a text. -/
structure AreLeading (text : List Char) (statements : List Statement) (spans : List Span) : Prop
    extends StandAt text statements spans where
  opening : ∀ first ∈ spans.head?, Text.IsPreamble (text.take first.start)
  behind : ∀ last ∈ spans.getLast?, ∃ error,
    ((Cursor.ofText (String.ofList (text.drop last.stop)) (some 0)).readItem).1 = .error error

theorem exists_areLeading_of_scan {text : String} {statements : List Statement}
    (success : scan text = .ok statements) : ∃ spans, AreLeading text.toList statements spans := by
  rcases exists_opensWith_of_scan success with ⟨items, inner, front, back, opens, readOff⟩
  rcases readOff.exists_standAt opens.tokens with ⟨spans, stand, _⟩
  refine ⟨spans, stand, ?_, ?_⟩
  · intro first head
    rcases List.head?_eq_some_iff.mp head with ⟨others, rfl⟩
    have final : (first :: others).getLast (List.cons_ne_nil _ _) ∈ (first :: others).getLast? :=
      List.getLast?_eq_some_getLast _
    exact (cut_of_scan success (stand.blockSpan?_eq rfl final)).1
  · intro last final
    rcases List.getLast?_eq_some_iff.mp final with ⟨init, rfl⟩
    have head : (init ++ [last]).head (by simp) ∈ (init ++ [last]).head? :=
      List.head?_eq_some_head _
    exact Backlog.exists_error_of_quiet (cut_of_scan success (stand.blockSpan?_eq head final)).2 _

theorem scan_of_parse {text : String} {statements : List Statement}
    (success : parse text = .ok statements) : scan text = .ok statements := by
  let backlog := Backlog.ofText text (some 0)
  rcases exists_derives_of_parse success with ⟨items, derives, _⟩
  rw [parse_eq] at success
  have read := Backlog.readLeading_of_readAll
    (fun _ member => TokenStream.isRead_of_mem_tokens member) success
  have stops : ∀ token ∈ backlog.tokens.head?, token.kind ≠ .innerAttribute := by
    intro token found
    rcases List.head?_eq_some_iff.mp found with ⟨others, equal⟩
    have some : backlog.tokens ≠ [] := by simp [equal]
    rcases ItemPhrase.exists_tokens_eq some derives.tokens with
      ⟨front, last, equal', _, first, head, opens⟩
    have same : token = first := by
      rw [equal', List.head?_append, Option.mem_def.mp head] at found
      exact (Option.some.inj found).symm
    rcases opens with kind | kind <;> simp [same, kind]
  have readable : backlog.pending = none :=
    (Backlog.pending_ofText text (some 0)).mpr (Option.map_eq_none_iff.mp derives.readable)
  have passed : ∀ token ∈ ([] : List Token), token.kind = .innerAttribute :=
    fun token member => absurd member List.not_mem_nil
  rw [scan_eq, Backlog.skipInnerAttributes_eq (List.nil_append _).symm passed stops fun _ => readable]
  exact read

/-- The use items at the top of a text are found where they stand, and all of them. A text that is
accepted as a whole has no others. -/
theorem areLeading_scan (text : String) :
    (∀ statements, scan text = .ok statements →
      ∃ spans, AreLeading text.toList statements spans) ∧
    ∀ statements, parse text = .ok statements → scan text = .ok statements := by
  constructor
  · intro statements success
    exact exists_areLeading_of_scan success
  · intro statements success
    exact scan_of_parse success

theorem areLeading_scan_comments :
    (∃ spans, AreLeading "#![a]// b\nuse c;/* d */\n#[e]pub use f;pub(g)fn".toList
      [⟨.name "c", {}, some 0, some ⟨10, 16⟩⟩,
        ⟨.name "f", { visibility := "pub", attributes := ["e"] }, some 0, some ⟨24, 38⟩⟩] spans) ∧
    scan "use c;// h" = .ok [⟨.name "c", {}, some 0, some ⟨0, 6⟩⟩] :=
  ⟨(areLeading_scan "#![a]// b\nuse c;/* d */\n#[e]pub use f;pub(g)fn").1 _ (by cbv),
    (areLeading_scan "use c;// h").2 _ (by cbv)⟩

end Statement

end ImportBlock
