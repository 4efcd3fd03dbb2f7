import ImportBlock.Proofs.Text.Position
import ImportBlock.Proofs.TokenOrder
import ImportBlock.Proofs.Viable
import Mathlib

/-! Where reading a text fails. Up to there the tokens are some that items begin with. A token that is
refused cannot follow them in any text that is accepted, because the reader's state is decided by the
tokens in front of it. -/

namespace ImportBlock

/-! ## Items -/

namespace SourceItem

/-- An item is refused at its end, or at a token that is refused there whatever follows it. In front of
this place an item can be completed. -/
theorem exists_of_refused {state : ItemState} {tokens : List Token} {before : List Word}
    (words : ∀ token ∈ tokens, token.word.IsRead) (reached : state.Reached before)
    {refusal : Refusal} {rest : List Token} (failed : readFrom state tokens = (.error refusal, rest)) :
    ∃ front : List Token, ItemState.Completes (before ++ front.map Token.word) ∧
      ((refusal.token = none ∧ tokens = front) ∨
        ∃ token back, refusal.token = some token ∧ tokens = front ++ token :: back ∧
          ∀ others, ∃ refusal', (readFrom state (front ++ token :: others)).1 = .error refusal') := by
  fun_induction readFrom state tokens generalizing before with
  | case1 state =>
      cases failed
      refine ⟨[], ?_, .inl ⟨rfl, rfl⟩⟩
      rw [List.map_nil, List.append_nil]
      exact ItemState.completes_of_reached reached
  | case2 state token others next taken induction =>
      have parts := List.forall_mem_cons.mp words
      have step := ItemState.reached_take parts.1 reached
      rw [taken] at step
      rcases induction parts.2 step failed with ⟨front, completes, place⟩
      rw [List.append_assoc] at completes
      refine ⟨token :: front, completes, ?_⟩
      rcases place with ⟨ended, equal⟩ | ⟨refused, back, found, equal, local'⟩
      · exact .inl ⟨ended, by rw [equal]⟩
      · refine .inr ⟨refused, back, found, by rw [equal]; rfl, ?_⟩
        intro others
        rw [List.cons_append, readFrom, taken]
        exact local' others
  | case3 => cases failed
  | case4 state token others fault taken =>
      cases failed
      refine ⟨[], ?_, .inr ⟨token, others, rfl, rfl, ?_⟩⟩
      · rw [List.map_nil, List.append_nil]
        exact ItemState.completes_of_reached reached
      · intro others
        rw [List.nil_append, readFrom, taken]
        exact ⟨_, rfl⟩

theorem not_beginItems_of_refused {front : List Token} {token : Token}
    (refused : ∀ others, ∃ refusal, (read (front ++ token :: others)).1 = .error refusal) :
    ¬BeginItems ((front ++ [token]).map Token.word) := by
  intro begins
  rcases begins with ⟨items, formed, _, rest, equal⟩
  cases items with
  | nil => simp at equal
  | cons item behind =>
      have spelled : (front ++ token :: rest.map Word.token).map Token.word =
          item.words ++ behind.flatMap ItemPhrase.words := by
        rw [← List.flatMap_cons, ← equal, List.map_append, List.map_append, List.map_cons,
          Word.map_word_map_token, List.map_singleton, List.append_assoc, List.singleton_append]
      rcases List.map_eq_append_iff.mp spelled with ⟨first, second, split, words, _⟩
      rcases read_append (List.forall_mem_cons.mp formed).1 words second with ⟨span, _, success⟩
      rcases refused (rest.map Word.token) with ⟨refusal, failed⟩
      rw [split, success] at failed
      cases failed

end SourceItem

/-! ## Texts -/

namespace Backlog

/-- A place where reading on from a backlog can fail, behind some of its tokens: a token that cannot stand
there, what is open behind all tokens, or the end of the text. -/
inductive FailsAt (backlog : Backlog) (front : List Token) : Nat → Prop
  | token {token : Token} {back : List Token} (tokens : backlog.tokens = front ++ token :: back)
      (refused : ¬BeginItems ((front ++ [token]).map Token.word)) : FailsAt backlog front token.start
  | fault {fault : TokenFault} (tokens : backlog.tokens = front)
      (pending : backlog.pending = some fault) : FailsAt backlog front fault.offset
  | ended (tokens : backlog.tokens = front) : FailsAt backlog front backlog.source.length

variable {backlog next : Backlog} {error : SyntaxError}

/-- Whether an error tells of such a place, and items begin with the tokens in front of it. -/
def Fails (backlog : Backlog) (error : SyntaxError) : Prop :=
  ∃ front offset fault, error = backlog.errorAt offset fault ∧
    BeginItems (front.map Token.word) ∧ backlog.FailsAt front offset

theorem of_runOut {α : Type} {answer : Except SyntaxError α}
    (failed : (backlog.runOut answer).1 = .error error) :
    (∃ pending, backlog.pending = some pending ∧ error = backlog.lexicalError pending) ∨
      answer = .error error := by
  unfold runOut at failed
  split at failed
  · next pending isPending =>
      cases failed
      exact .inl ⟨pending, isPending, rfl⟩
  · exact .inr failed

theorem fails_of_readItem (words : ∀ token ∈ backlog.tokens, token.word.IsRead)
    (failed : backlog.readItem = (.error error, next)) : backlog.Fails error := by
  have begun : (ItemState.opening none []).Reached [] := rfl
  have readable : ∀ {front back : List Token}, backlog.tokens = front ++ back →
      ∀ word ∈ front.map Token.word, word.IsRead := by
    intro front back split word member
    rcases List.mem_map.mp member with ⟨token, inside, rfl⟩
    exact words token (by rw [split]; exact List.mem_append_left _ inside)
  rw [readItem_eq] at failed
  split at failed
  · cases failed
  · next fault token rest refused =>
      cases failed
      rcases SourceItem.exists_of_refused words begun refused with
        ⟨front, completes, ⟨none, _⟩ | ⟨found, back, same, split, always⟩⟩
      · cases none
      · cases same
        exact ⟨front, token.start, fault, rfl, completes.beginItems (readable split),
          .token split (SourceItem.not_beginItems_of_refused always)⟩
  · next fault rest refused =>
      rcases SourceItem.exists_of_refused words begun refused with
        ⟨front, completes, ⟨_, ended⟩ | ⟨found, _, some, _⟩⟩
      · have begins := completes.beginItems (readable (ended.trans (List.append_nil _).symm))
        rcases of_runOut (congrArg Prod.fst failed) with ⟨pending, isPending, rfl⟩ | answered
        · exact ⟨front, pending.offset, _, rfl, begins, .fault ended isPending⟩
        · cases answered
          exact ⟨front, backlog.source.length, fault, rfl, begins, .ended ended⟩
      · cases some

theorem Fails.behind {item : ItemPhrase} (formed : item.IsFormed) {done : List Token}
    (split : backlog.tokens = done ++ next.tokens) (spelled : done.map Token.word = item.words)
    (words : ∀ token ∈ done, token.word.IsRead) (same : next = { backlog with tokens := next.tokens })
    (fails : next.Fails error) : backlog.Fails error := by
  rcases fails with ⟨front, offset, fault, told, begins, place⟩
  have read : ∀ word ∈ item.words, word.IsRead := by
    rw [← spelled]
    exact List.forall_mem_map.mpr words
  refine ⟨done ++ front, offset, fault, ?_, ?_, ?_⟩
  · rw [told, same]
  · rw [List.map_append, spelled]
    exact begins.cons formed read
  · cases place with
    | token tokens refused =>
        refine .token (by rw [split, tokens, List.append_assoc]) ?_
        rw [List.append_assoc, List.map_append, spelled]
        intro wrong
        exact refused (wrong.behind formed (by simp))
    | fault tokens pending =>
        rw [same] at pending
        exact .fault (by rw [split, tokens]) pending
    | ended tokens =>
        rw [same]
        exact .ended (by rw [split, tokens])

theorem fails_of_readAll (words : ∀ token ∈ backlog.tokens, token.word.IsRead)
    (failed : backlog.readAll = .error error) : backlog.Fails error := by
  fun_induction readAll backlog with
  | case1 backlog ended =>
      rcases of_runOut failed with ⟨pending, isPending, rfl⟩ | answered
      · exact ⟨[], pending.offset, _, rfl, beginItems_nil, .fault ended isPending⟩
      · cases answered
  | case2 backlog _ _ _ _ _ equal =>
      cases failed
      exact fails_of_readItem words equal
  | case3 backlog _ _ _ _ next equal induction =>
      rcases exists_phrase_of_readItem words equal with ⟨item, done, formed, split, spelled, _, same⟩
      rw [split] at words
      have parts := List.forall_mem_append.mp words
      cases behind : next.readAll with
      | ok _ =>
          rw [behind] at failed
          cases failed
      | error _ =>
          rw [behind] at failed
          cases failed
          exact (induction parts.2 behind).behind formed split spelled parts.1 same

end Backlog

/-- What a place is where reading a text fails: a token starts there, something opens that has no end, or
the text is at its end. -/
def Text.IsFaultPlace (text : List Char) (offset : Nat) : Prop :=
  (∃ token ∈ tokens 0 text, token.start = offset) ∨
    (∃ fault, (TokenStream.ofText text).fault = some ⟨fault, offset⟩ ∧
      Lexeme.IsOpen fault (text.drop offset)) ∨
    offset = text.length

theorem Backlog.FailsAt.place {text : String} {fragment : Option Int} {front : List Token}
    {offset : Nat} (place : (ofText text fragment).FailsAt front offset) :
    offset ≤ text.length ∧ Text.IsFaultPlace text.toList offset ∧
      Text.tokensBefore text.toList offset = front ∧
      ∀ token ∈ Text.tokens 0 text.toList, token.start = offset →
        ¬BeginItems ((front ++ [token]).map Token.word) := by
  have within : Text.covered text.toList ≤ text.length := Text.covered_le _
  -- Where no lexeme goes beyond the place, all tokens stand in front of it.
  have whole : ∀ {limit : Nat}, (ofText text fragment).tokens = front →
      Text.covered text.toList ≤ limit → Text.tokensBefore text.toList limit = front ∧
        ∀ token ∈ Text.tokens 0 text.toList, token.start = limit →
          ¬BeginItems ((front ++ [token]).map Token.word) := by
    intro limit tokens beyond
    refine ⟨(Text.tokensBefore_of_covered_le beyond).trans tokens, ?_⟩
    intro token member starts
    exact absurd starts (Text.start_ne_of_covered_le beyond member)
  cases place with
  | @token token back tokens refused =>
      have given : Text.tokens 0 text.toList = front ++ token :: back := tokens
      have member : token ∈ Text.tokens 0 text.toList := by
        rw [given]
        simp
      have longer := Text.start_lt_stop member
      have stops := Text.stop_le_covered member
      refine ⟨by omega, .inl ⟨token, member, rfl⟩, Text.tokensBefore_start given, ?_⟩
      intro other member' same
      rwa [Text.eq_of_start member member' same]
  | @fault fault tokens pending =>
      rcases Option.map_eq_some_iff.mp (show Option.map _ _ = some fault from pending) with
        ⟨open', faulty, rfl⟩
      exact ⟨within, .inr (.inl ⟨open', pending, Lexeme.isOpen_of_scan faulty⟩),
        whole tokens (Nat.le_refl _)⟩
  | ended tokens => exact ⟨Nat.le_refl _, .inr (.inr rfl), whole tokens within⟩

/-- Where a text is not accepted, the line and the column of the error lead back to a place in it. The
tokens up to there are some that a text begins with which is accepted, and a token that starts there is the
first that no such text goes on with. -/
theorem Statement.exists_offset_of_parse {text : String} {fragment : Option Int}
    {error : SyntaxError} (failed : parse text fragment = .error error) :
    ∃ line column offset : Nat, error.line = some (line : Int) ∧ error.column = some (column : Int) ∧
      0 < line ∧ 0 < column ∧ Text.Position.offset text.toList ⟨line, column⟩ = offset ∧
      offset ≤ text.length ∧ Text.IsFaultPlace text.toList offset ∧
      IsViable ((Text.tokensBefore text.toList offset).map Token.word) ∧
      ∀ token ∈ Text.tokens 0 text.toList, token.start = offset →
        ¬IsViable ((Text.tokensBefore text.toList offset ++ [token]).map Token.word) := by
  rw [parse_eq] at failed
  rcases Backlog.fails_of_readAll (fun _ member => TokenStream.isRead_of_mem_tokens member) failed with
    ⟨front, offset, fault, rfl, begins, failsAt⟩
  rcases failsAt.place with ⟨within, place, before, refused⟩
  refine ⟨_, _, offset, rfl, rfl, Nat.succ_pos _, Nat.succ_pos _,
    Text.Position.offset_ofOffset within, within, place, ?_, ?_⟩
  · rw [before, isViable_iff]
    exact begins
  · intro token member starts
    rw [before, isViable_iff]
    exact refused token member starts

theorem Statement.exists_offset_of_parse_second_line :
    parse "use a::\x7bb,\n c d\x7d;" (some 0) =
      .error ⟨.missing .groupEnd (some "d"), some 0, some 2, some 4⟩ ∧
    IsViable [⟨.identifier, "use"⟩, ⟨.identifier, "a"⟩, ⟨.pathSeparator, "::"⟩, ⟨.openBrace, "\x7b"⟩,
      ⟨.identifier, "b"⟩, ⟨.comma, ","⟩, ⟨.identifier, "c"⟩] ∧
    ¬IsViable [⟨.identifier, "use"⟩, ⟨.identifier, "a"⟩, ⟨.pathSeparator, "::"⟩,
      ⟨.openBrace, "\x7b"⟩, ⟨.identifier, "b"⟩, ⟨.comma, ","⟩, ⟨.identifier, "c"⟩,
      ⟨.identifier, "d"⟩] := by
  have failed : parse "use a::\x7bb,\n c d\x7d;" (some 0) =
      .error ⟨.missing .groupEnd (some "d"), some 0, some 2, some 4⟩ := by cbv
  rcases exists_offset_of_parse failed with
    ⟨line, column, offset, atLine, atColumn, _, _, decoded, _, _, viable, refused⟩
  have lines : line = 2 := by exact_mod_cast (Option.some.inj atLine).symm
  have columns : column = 4 := by exact_mod_cast (Option.some.inj atColumn).symm
  have place : offset = 14 := by
    rw [← decoded, lines, columns]
    cbv
  have before : Text.tokensBefore "use a::\x7bb,\n c d\x7d;".toList 14 =
      [⟨.identifier, "use", 0, 3⟩, ⟨.identifier, "a", 4, 5⟩, ⟨.pathSeparator, "::", 5, 7⟩,
        ⟨.openBrace, "\x7b", 7, 8⟩, ⟨.identifier, "b", 8, 9⟩, ⟨.comma, ",", 9, 10⟩,
        ⟨.identifier, "c", 12, 13⟩] := by cbv
  have present : ⟨.identifier, "d", 14, 15⟩ ∈
      Text.tokens 0 "use a::\x7bb,\n c d\x7d;".toList := by
    have found : (Text.tokens 0 "use a::\x7bb,\n c d\x7d;".toList)[7]? =
        some ⟨.identifier, "d", 14, 15⟩ := by cbv
    exact List.mem_of_getElem? found
  rw [place, before] at viable
  have refused := refused ⟨.identifier, "d", 14, 15⟩ present place.symm
  rw [place, before] at refused
  exact ⟨failed, viable, refused⟩

end ImportBlock
