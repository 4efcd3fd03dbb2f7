import ImportBlock.Proofs.Statement.Backlog
import ImportBlock.Proofs.Statement.TreeReader

/-! Reading use items. The words of a derivation are read as its item, and whatever is read as an item
is a derivation of it. -/

namespace ImportBlock

open ItemPhrase (attributeWords colonWords)

namespace ItemState

def Reads (state : ItemState) (words : List Word) (next : ItemState) : Prop :=
  ∀ tokens, tokens.map Token.word = words → ∀ rest,
    SourceItem.readFrom state (tokens ++ rest) = SourceItem.readFrom next rest

namespace Reads

theorem nil (state : ItemState) : Reads state [] state := by
  intro tokens equal rest
  rw [List.map_eq_nil_iff.mp equal, List.nil_append]

theorem append {state middle next : ItemState} {front back : List Word}
    (before : Reads state front middle) (behind : Reads middle back next) :
    Reads state (front ++ back) next := by
  intro tokens equal rest
  rcases List.map_eq_append_iff.mp equal with ⟨first, second, rfl, front, back⟩
  rw [List.append_assoc, before first front, behind second back]

theorem cons {state next : ItemState} (middle : ItemState) {word : Word} {back : List Word}
    (taken : ∀ start stop, state.take ⟨word.kind, word.text, start, stop⟩ = .on middle)
    (behind : Reads middle back next) : Reads state (word :: back) next := by
  intro tokens equal rest
  rcases List.map_eq_cons_iff.mp equal with ⟨⟨kind, text, start, stop⟩, others, rfl, rfl, back⟩
  have here : state.take ⟨kind, text, start, stop⟩ = .on middle := taken start stop
  rw [List.cons_append, SourceItem.readFrom, here]
  exact behind others back rest

end Reads

theorem reads_pathWords (first : Nat) (attributes : List String) :
    ∀ (segments read : List String), segments ≠ [] →
      Reads (.scopePath first attributes read) (Visibility.pathWords segments)
        (.scopeSegment first attributes (read ++ segments))
  | [], _, nonempty => absurd rfl nonempty
  | [segment], read, _ => .cons _ (fun _ _ => rfl) (.nil _)
  | segment :: next :: rest, read, _ => by
      have others := reads_pathWords first attributes (next :: rest) (read ++ [segment]) nofun
      rw [List.append_assoc, List.singleton_append] at others
      exact .cons (.scopeSegment first attributes (read ++ [segment])) (fun _ _ => rfl)
        (.cons _ (fun _ _ => rfl) others)

theorem reads_scopeWords {visibility : Visibility} (formed : visibility.IsFormed)
    (stated : visibility.words ≠ []) (first : Nat) (attributes : List String) :
    Reads (.afterPub first attributes) (visibility.scopeWords ++ [⟨.identifier, "use"⟩])
      (.afterUse first { visibility := visibility.text, attributes }) := by
  cases visibility with
  | inherited => exact absurd rfl stated
  | exported => exact .cons _ (fun _ _ => rfl) (.nil _)
  | within word =>
      have named : ∀ start stop, (ItemState.inScope first attributes).take
          ⟨.identifier, word, start, stop⟩ = .on (.scopeEnd first attributes word) := by
        intro start stop
        simp only [take, if_pos, show Identifier.isPathKeyword word = true from formed]
      exact .cons _ (fun _ _ => rfl) (.cons _ named (.cons _ (fun _ _ => rfl) (.cons _ (fun _ _ => rfl)
        (.nil _))))
  | inPath segments =>
      have path := reads_pathWords first attributes segments [] formed
      have ends : Reads (.scopeSegment first attributes ([] ++ segments))
          ([⟨.closeParenthesis, ")"⟩] ++ [⟨.identifier, "use"⟩])
          (.afterUse first { visibility := (Visibility.inPath segments).text, attributes }) :=
        .cons _ (fun _ _ => rfl) (.cons _ (fun _ _ => rfl) (.nil _))
      rw [Visibility.scopeWords, List.append_assoc, List.append_assoc]
      exact .cons (.inScope first attributes) (fun _ _ => rfl)
        (.cons (.scopePath first attributes []) (fun _ _ => rfl) (path.append ends))

theorem reads_visibility {visibility : Visibility} (formed : visibility.IsFormed) (first : Nat)
    (read : List String) :
    Reads (.opening (some first) read) (visibility.words ++ [⟨.identifier, "use"⟩])
      (.afterUse first { visibility := visibility.text, attributes := read }) := by
  cases visibility with
  | inherited => exact .cons _ (fun _ _ => rfl) (.nil _)
  | _ => exact .cons _ (fun _ _ => rfl) (reads_scopeWords formed nofun first read)

theorem reads_opening {visibility : Visibility} (formed : visibility.IsFormed) (first : Nat)
    (attributes : List String) : ∀ read : List String,
      Reads (.opening (some first) read) (attributeWords attributes ++
          (visibility.words ++ [⟨.identifier, "use"⟩]))
        (.afterUse first
          { visibility := visibility.text, attributes := read ++ attributes }) := by
  induction attributes with
  | nil =>
      intro read
      rw [List.append_nil]
      exact reads_visibility formed first read
  | cons body others induction =>
      intro read
      have behind := induction (read ++ [body])
      rw [List.append_assoc, List.singleton_append] at behind
      exact .cons _ (fun _ _ => rfl) behind

/-! ## Trees -/

theorem take_inTree {first : Nat} {metadata : Metadata} {state next : TreeState} {token : Token}
    (stepped : state.step token.word = some next) :
    (ItemState.inTree first metadata state).take token = .on (.inTree first metadata next) := by
  rw [← TreeState.take_settle] at stepped
  rw [take, takeTree]
  cases settled : state.settle (some token) with
  | complete tree =>
      rw [settled] at stepped
      cases stepped
  | _ =>
      rw [settled] at stepped
      dsimp only
      rw [stepped]

theorem reads_tree (first : Nat) (metadata : Metadata) {words : List Word} :
    ∀ {state next : TreeState}, state.run words = some next →
      Reads (.inTree first metadata state) words (.inTree first metadata next) := by
  induction words with
  | nil =>
      intro state next reached
      cases reached
      exact .nil _
  | cons word rest induction =>
      intro state next reached
      rw [TreeState.run, List.foldlM_cons] at reached
      rcases Option.bind_eq_some_iff.mp reached with ⟨middle, stepped, reached⟩
      exact .cons _ (fun start stop => take_inTree stepped) (induction reached)

theorem reads_colonWords (tree : TreePhrase) (first : Nat) (visibility : String)
    (attributes : List String) (leadingColon : Bool) :
    ∃ state, TreeState.IsBehind tree.tree [] state ∧
      Reads (.afterUse first { visibility, attributes }) (colonWords leadingColon ++ tree.words)
        (.inTree first { visibility, attributes, leadingColon } state) := by
  rcases TreeState.exists_run_words tree [] with ⟨state, reached, behind⟩
  refine ⟨state, behind, ?_⟩
  cases leadingColon with
  | true => exact .cons _ (fun _ _ => rfl) (reads_tree first _ reached)
  | false =>
      rcases tree.exists_words_eq_cons with ⟨word, rest, equal, _, kind⟩
      rw [equal] at reached ⊢
      intro tokens words others
      rw [← reads_tree first { visibility, attributes } reached tokens words others]
      rcases List.map_eq_cons_iff.mp words with ⟨token, behind, rfl, rfl, _⟩
      have same : (ItemState.afterUse first { visibility, attributes }).take token =
          (ItemState.inTree first { visibility, attributes } (.start [])).take token := if_neg kind
      rw [List.cons_append, SourceItem.readFrom, SourceItem.readFrom, same]
      rfl

end ItemState

namespace SourceItem

theorem read_cons (token : Token) (rest : List Token) :
    read (token :: rest) = readFrom (.opening (some token.start) []) (token :: rest) := rfl

/-- The words of an item are read as this item, which reaches from the first of them to the last. -/
theorem read_append {item : ItemPhrase} (formed : item.IsFormed) {tokens : List Token}
    (equal : tokens.map Token.word = item.words) (rest : List Token) :
    ∃ span, Token.span? tokens = some span ∧
      read (tokens ++ rest) = (.ok ⟨item.tree.tree, item.metadata, span⟩, rest) := by
  have split : item.words = (attributeWords item.attributes ++
      (item.visibility.words ++ [⟨.identifier, "use"⟩])) ++
        (colonWords item.leadingColon ++ item.tree.words) ++ [⟨.semicolon, ";"⟩] := by
    simp [ItemPhrase.words]
  rw [split] at equal
  rcases List.map_eq_append_iff.mp equal with ⟨front, last, rfl, frontWords, lastWord⟩
  rcases List.map_eq_singleton_iff.mp lastWord with ⟨⟨kind, text, start, stop⟩, rfl, word⟩
  cases word
  cases front with
  | nil => simp at frontWords
  | cons token others =>
      have opening := ItemState.reads_opening formed token.start item.attributes []
      rcases ItemState.reads_colonWords item.tree token.start item.visibility.text
        ([] ++ item.attributes) item.leadingColon with ⟨state, behind, reads⟩
      have reached := opening.append reads (token :: others) frontWords
        (⟨.semicolon, ";", start, stop⟩ :: rest)
      have settled : state.settle (some ⟨.semicolon, ";", start, stop⟩) = .complete item.tree.tree :=
        behind _ (by simp [Word.Closes, Token.word])
      refine ⟨⟨token.start, stop⟩, ?_, ?_⟩
      · rw [Token.span?, List.getLast?_concat]
        rfl
      · rw [List.append_assoc, List.singleton_append, List.cons_append, read_cons,
          ← List.cons_append, reached, readFrom, ItemState.take, ItemState.takeTree, settled]
        rfl

end SourceItem

/-! ## What is read -/

/-- Whether some words are a derivation of an item. -/
def SourceItem.IsDerived (item : SourceItem) (read : List Word) : Prop :=
  ∃ phrase : ItemPhrase, phrase.IsFormed ∧ phrase.metadata = item.metadata ∧
    phrase.tree.tree = item.tree ∧ phrase.words = read

namespace ItemState

def inWords : List Word := [⟨.identifier, "pub"⟩, ⟨.openParenthesis, "("⟩, ⟨.identifier, "in"⟩]

def segmentWords (segments : List String) : List Word :=
  segments.flatMap fun segment => [⟨.identifier, segment⟩, ⟨.pathSeparator, "::"⟩]

theorem pathWords_concat (segments : List String) (last : String) :
    Visibility.pathWords (segments ++ [last]) = segmentWords segments ++ [⟨.identifier, last⟩] := by
  induction segments with
  | nil => rfl
  | cons first rest induction =>
      rw [List.cons_append, Visibility.pathWords_cons first (by simp), induction]
      rfl

theorem segmentWords_of_ne_nil {segments : List String} (nonempty : segments ≠ []) :
    segmentWords segments = Visibility.pathWords segments ++ [⟨.pathSeparator, "::"⟩] := by
  rcases (List.eq_nil_or_concat segments).resolve_left nonempty with ⟨init, last, rfl⟩
  rw [List.concat_eq_append, pathWords_concat]
  simp [segmentWords]

/-- Whether some words are the attributes and the visibility that metadata tells about. -/
def Opened (metadata : Metadata) (read : List Word) : Prop :=
  ∃ visibility : Visibility, visibility.IsFormed ∧ visibility.text = metadata.visibility ∧
    read = attributeWords metadata.attributes ++ visibility.words

def Reached : ItemState → List Word → Prop
  | .opening _ attributes, read => read = attributeWords attributes
  | .afterPub _ attributes, read => read = attributeWords attributes ++ [⟨.identifier, "pub"⟩]
  | .inScope _ attributes, read =>
      read = attributeWords attributes ++ [⟨.identifier, "pub"⟩, ⟨.openParenthesis, "("⟩]
  | .scopeEnd _ attributes word, read =>
      Identifier.isPathKeyword word = true ∧
        read = attributeWords attributes ++
          [⟨.identifier, "pub"⟩, ⟨.openParenthesis, "("⟩, ⟨.identifier, word⟩]
  | .scopePath _ attributes segments, read =>
      read = attributeWords attributes ++ (inWords ++ segmentWords segments)
  | .scopeSegment _ attributes segments, read =>
      segments ≠ [] ∧
        read = attributeWords attributes ++ (inWords ++ Visibility.pathWords segments)
  | .keyword _ metadata, read => metadata.leadingColon = false ∧ Opened metadata read
  | .afterUse _ metadata, read =>
      metadata.leadingColon = false ∧
        ∃ before, Opened metadata before ∧ read = before ++ [⟨.identifier, "use"⟩]
  | .inTree _ metadata state, read =>
      ∃ before inner, Opened metadata before ∧ state.Reached inner ∧
        read = before ++ ⟨.identifier, "use"⟩ :: (colonWords metadata.leadingColon ++ inner)

def StepReached : ItemStep → List Word → Prop
  | .on next, read => next.Reached read
  | .complete item, read => item.IsDerived read
  | .refused _, _ => True

section Take

variable {token : Token} {read : List Word}

theorem reached_takeUse {metadata : Metadata} (plain : metadata.leadingColon = false)
    (opened : Opened metadata read) (first : Nat) :
    StepReached (takeUse first metadata token) (read ++ [token.word]) := by
  unfold takeUse
  split
  · next keyword =>
      rw [TreeState.eq_of_isWord keyword]
      exact ⟨plain, read, opened, rfl⟩
  · trivial

theorem isDerived_of_opened {metadata : Metadata} {before : List Word}
    (opened : Opened metadata before) (tree : TreePhrase) (span : Span) :
    SourceItem.IsDerived ⟨tree.tree, metadata, span⟩
      (before ++ ⟨.identifier, "use"⟩ :: (colonWords metadata.leadingColon ++ tree.words) ++
        [⟨.semicolon, ";"⟩]) := by
  rcases metadata with ⟨text, attributes, leadingColon⟩
  rcases opened with ⟨visibility, formed, rfl, rfl⟩
  exact ⟨⟨attributes, visibility, leadingColon, tree⟩, formed, rfl, rfl, by simp [ItemPhrase.words]⟩

theorem reached_takeTree (word : token.word.IsRead) {metadata : Metadata} {state : TreeState}
    {before inner : List Word} (opened : Opened metadata before) (reached : state.Reached inner)
    (first : Nat) :
    StepReached (takeTree first metadata state token)
      (before ++ ⟨.identifier, "use"⟩ :: (colonWords metadata.leadingColon ++ inner) ++
        [token.word]) := by
  have settled := TreeState.reached_settle reached (some token)
  unfold takeTree
  split
  · next tree complete semicolon =>
      rw [complete] at settled
      rcases settled with ⟨phrase, rfl, rfl⟩
      rw [word.eq_mark semicolon rfl]
      exact isDerived_of_opened opened phrase _
  · split
    · next next taken =>
        have behind := TreeState.reached_take word
          (fun _ _ equal => TreeState.continues_of_settle equal) settled taken
        exact ⟨before, inner ++ [token.word], opened, behind, by simp⟩
    · trivial

theorem reached_take (word : token.word.IsRead) : ∀ {state : ItemState},
    state.Reached read → StepReached (state.take token) (read ++ [token.word])
  | .opening first attributes, reached => by
      rw [take]
      split
      · next kind =>
          have longer : attributeWords (attributes ++ [token.text]) =
              attributeWords attributes ++ [⟨.attribute, token.text⟩] := List.map_append
          rw [reached, Token.word, kind, ← longer]
          rfl
      · split
        · next exported =>
            rw [reached, TreeState.eq_of_isWord exported]
            rfl
        · have opened : Opened { attributes } read :=
            ⟨.inherited, trivial, rfl, by rw [reached, Visibility.words, List.append_nil]⟩
          exact reached_takeUse rfl opened _
  | .afterPub first attributes, reached => by
      rw [take]
      split
      · next parenthesis =>
          rw [reached, word.eq_mark parenthesis rfl, List.append_assoc]
          rfl
      · have opened : Opened { visibility := "pub", attributes } read :=
          ⟨.exported, trivial, rfl, reached⟩
        exact reached_takeUse rfl opened _
  | .inScope first attributes, reached => by
      rw [take]
      split
      · next identifier =>
          rw [reached, Token.word, identifier, List.append_assoc]
          split
          · next keyword => exact ⟨keyword, rfl⟩
          · split
            · next named =>
                rw [named]
                rfl
            · trivial
      · trivial
  | .scopeEnd first attributes name, reached => by
      rw [take]
      split
      · next parenthesis =>
          rw [reached.2, word.eq_mark parenthesis rfl, List.append_assoc]
          exact ⟨rfl, .within name, reached.1, rfl, rfl⟩
      · trivial
  | .scopePath first attributes segments, reached => by
      rw [take]
      split
      · next identifier =>
          refine ⟨by simp, ?_⟩
          rw [reached, pathWords_concat, Token.word, identifier, List.append_assoc, List.append_assoc]
      · trivial
  | .scopeSegment first attributes segments, reached => by
      rw [take]
      split
      · next separator =>
          rw [reached.2, word.eq_mark separator rfl, List.append_assoc, List.append_assoc,
            ← segmentWords_of_ne_nil reached.1]
          rfl
      · split
        · next parenthesis =>
            refine ⟨rfl, .inPath segments, reached.1, rfl, ?_⟩
            rw [reached.2, word.eq_mark parenthesis rfl, List.append_assoc]
            rfl
        · trivial
  | .keyword first metadata, reached => reached_takeUse reached.1 reached.2 first
  | .afterUse first metadata, reached => by
      rcases reached with ⟨plain, before, opened, rfl⟩
      rw [take]
      split
      · next separator =>
          rw [word.eq_mark separator rfl]
          exact ⟨before, [], opened, rfl, by simp [colonWords]⟩
      · have begun := reached_takeTree word opened (show (TreeState.start []).Reached [] from rfl)
          first
        rwa [plain] at begun
  | .inTree first metadata state, reached => by
      rcases reached with ⟨before, inner, opened, inside, rfl⟩
      exact reached_takeTree word opened inside first

end Take

end ItemState

namespace SourceItem

theorem exists_isDerived {state : ItemState} {tokens : List Token} {before : List Word}
    (words : ∀ token ∈ tokens, token.word.IsRead) (reached : state.Reached before)
    {item : SourceItem} {rest : List Token} (success : readFrom state tokens = (.ok item, rest)) :
    ∃ front, tokens = front ++ rest ∧ item.IsDerived (before ++ front.map Token.word) := by
  fun_induction readFrom state tokens generalizing before with
  | case1 => cases success
  | case2 state token others next taken induction =>
      have parts := List.forall_mem_cons.mp words
      have step := ItemState.reached_take parts.1 reached
      rw [taken] at step
      rcases induction parts.2 step success with ⟨front, rfl, derived⟩
      rw [List.append_assoc] at derived
      exact ⟨token :: front, rfl, derived⟩
  | case3 state token others item' taken =>
      have parts := List.forall_mem_cons.mp words
      have step := ItemState.reached_take parts.1 reached
      rw [taken] at step
      cases success
      exact ⟨[token], rfl, step⟩
  | case4 => cases success

end SourceItem

end ImportBlock
