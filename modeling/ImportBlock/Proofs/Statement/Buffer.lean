import ImportBlock.Proofs.Statement.Backlog

/-! A cursor cuts its text step by step and keeps in a buffer what it has looked at, but none of that can be
noticed: what its calls answer and what they leave depends on the tokens in the buffer and those still to
come, one after the other. -/

namespace ImportBlock

/-! ## Tokens as they are cut -/

namespace Tokenizer

/-- What pulling a token does to the tokens that are still to come. -/
inductive Pulls (tokenizer : Tokenizer) : Except TokenFault (Option Token) × Tokenizer → Prop
  | token {token : Token} {next : Tokenizer} (tokens : tokenizer.tokens = token :: next.tokens)
      (pending : tokenizer.pending = next.pending) : Pulls tokenizer (.ok (some token), next)
  | ended {next : Tokenizer} (tokens : tokenizer.tokens = []) (pending : tokenizer.pending = none)
      (tokens' : next.tokens = []) (pending' : next.pending = none) :
      Pulls tokenizer (.ok none, next)
  | fault {fault : TokenFault} {next : Tokenizer} (tokens : tokenizer.tokens = [])
      (pending : tokenizer.pending = some fault) (tokens' : next.tokens = [])
      (pending' : next.pending = none) : Pulls tokenizer (.error fault, next)

theorem tokens_of_nil {tokenizer : Tokenizer} (ended : tokenizer.rest = []) :
    tokenizer.tokens = [] ∧ tokenizer.pending = none := by
  rw [tokens, pending, ended, Lexeme.scan]
  exact ⟨rfl, rfl⟩

theorem pending_of_next {tokenizer : Tokenizer} {c : Char} {rest : List Char}
    (equal : tokenizer.rest = c :: rest) {kind : LexemeKind} {count : Nat}
    (found : Lexeme.next c rest = .ok (kind, count)) :
    tokenizer.pending =
      pending ⟨rest.drop count, tokenizer.offset + (c :: rest.take count).length⟩ := by
  rw [pending, pending, equal, Lexeme.scan, found]
  simp only [List.flatMap_cons, List.length_append, Nat.add_assoc]

theorem pulls_next (tokenizer : Tokenizer) : tokenizer.Pulls tokenizer.next := by
  fun_induction next tokenizer with
  | case1 tokenizer ended =>
      have nothing := tokens_of_nil ended
      exact .ended nothing.1 nothing.2 nothing.1 nothing.2
  | case2 tokenizer c rest equal fault failed =>
      have nothing := @tokens_of_nil { tokenizer with rest := [] } rfl
      refine .fault ?_ ?_ nothing.1 nothing.2
      · rw [tokens, equal, Lexeme.scan, failed]
        rfl
      · rw [pending, equal, Lexeme.scan, failed]
        rfl
  | case3 tokenizer c rest equal count kind found =>
      refine .token ?_ (pending_of_next equal found)
      rw [tokens, equal, Lexeme.scan, found]
      rfl
  | case4 tokenizer c rest equal kind count found _ _ noToken induction =>
      have fault := pending_of_next equal found
      have skipped : tokenizer.tokens =
          tokens ⟨rest.drop count, tokenizer.offset + (c :: rest.take count).length⟩ := by
        rw [tokens, equal, Lexeme.scan, found, Token.ofLexemes]
        split
        · next is => exact absurd is (noToken _)
        · rfl
      generalize next _ = result at induction ⊢
      cases induction with
      | token tokens pending => exact .token (skipped.trans tokens) (fault.trans pending)
      | ended tokens pending tokens' pending' =>
          exact .ended (skipped.trans tokens) (fault.trans pending) tokens' pending'
      | fault tokens pending tokens' pending' =>
          exact .fault (skipped.trans tokens) (fault.trans pending) tokens' pending'

end Tokenizer

/-! ## Looking at tokens -/

namespace Cursor

def backlog (cursor : Cursor) : Backlog := ⟨cursor.toOrigin, cursor.tokens, cursor.pending⟩

inductive Fills (cursor : Cursor) (count : Nat) : Except SyntaxError Unit × Cursor → Prop
  | filled {next : Cursor} (same : next.backlog = cursor.backlog)
      (enough : next.buffer.size = cursor.buffer.size + count) : Fills cursor count (.ok (), next)
  | ended {next : Cursor} (same : next.backlog = cursor.backlog)
      (few : cursor.tokens.length < cursor.buffer.size + count) (quiet : cursor.pending = none)
      (all : next.buffer.toList = cursor.tokens) : Fills cursor count (.ok (), next)
  | fault {fault : TokenFault} {next : Cursor}
      (few : cursor.tokens.length < cursor.buffer.size + count)
      (pending : cursor.pending = some fault)
      (left : next.backlog = { cursor.backlog with pending := none }) :
      Fills cursor count (.error (cursor.lexicalError fault), next)

theorem fills_fill (cursor : Cursor) (count : Nat) : cursor.Fills count (cursor.fill count) := by
  fun_induction fill cursor count with
  | case1 cursor => exact .filled rfl rfl
  | case2 cursor count fault unread equal =>
      have pulls := cursor.unread.pulls_next
      rw [equal] at pulls
      cases pulls with
      | fault tokens pending tokens' pending' =>
          refine .fault ?_ pending ?_
          · rw [Cursor.tokens, tokens, List.append_nil, Array.length_toList]
            omega
          · rw [backlog, backlog, Cursor.tokens, Cursor.tokens, tokens, tokens', Cursor.pending, pending']
  | case3 cursor count unread equal =>
      have pulls := cursor.unread.pulls_next
      rw [equal] at pulls
      cases pulls with
      | ended tokens pending tokens' pending' =>
          refine .ended ?_ ?_ pending ?_
          · rw [backlog, backlog, Cursor.tokens, Cursor.tokens, tokens, tokens', Cursor.pending, Cursor.pending,
              pending, pending']
          · rw [Cursor.tokens, tokens, List.append_nil, Array.length_toList]
            omega
          · rw [Cursor.tokens, tokens, List.append_nil]
  | case4 cursor count token unread equal induction =>
      have pulls := cursor.unread.pulls_next
      rw [equal] at pulls
      cases pulls with
      | token tokens pending =>
          let longer : Cursor := { cursor with buffer := cursor.buffer.push token, unread }
          have same : longer.backlog = cursor.backlog := by
            rw [backlog, backlog, Cursor.tokens, Cursor.tokens, tokens, Cursor.pending, Cursor.pending, pending,
              Array.toList_push, List.append_assoc, List.singleton_append]
          have tokens : longer.tokens = cursor.tokens := congrArg Backlog.tokens same
          have size : longer.buffer.size + count = cursor.buffer.size + (count + 1) := by
            rw [Array.size_push]
            omega
          generalize fill _ count = result at induction ⊢
          cases induction with
          | filled behind enough => exact .filled (behind.trans same) (enough.trans size)
          | ended behind few quiet all =>
              rw [tokens, size] at few
              exact .ended (behind.trans same) few (pending.trans quiet) (all.trans tokens)
          | fault few pending' left =>
              rw [tokens, size] at few
              rw [same] at left
              exact .fault few (pending.trans pending') left

inductive Peeks (cursor : Cursor) (offset : Nat) : Except SyntaxError (Option Token) × Cursor → Prop
  | token {token : Token} {next : Cursor} (stands : cursor.tokens[offset]? = some token)
      (same : next.backlog = cursor.backlog) : Peeks cursor offset (.ok (some token), next)
  | ended {next : Cursor} (behind : cursor.tokens[offset]? = none) (quiet : cursor.pending = none)
      (same : next.backlog = cursor.backlog) : Peeks cursor offset (.ok none, next)
  | fault {fault : TokenFault} {next : Cursor} (behind : cursor.tokens[offset]? = none)
      (pending : cursor.pending = some fault)
      (left : next.backlog = { cursor.backlog with pending := none }) :
      Peeks cursor offset (.error (cursor.lexicalError fault), next)

theorem peeks_peek (cursor : Cursor) (offset : Nat) : cursor.Peeks offset (cursor.peek offset) := by
  have fills := cursor.fills_fill (offset + 1 - cursor.buffer.size)
  have shorter : cursor.buffer.size ≤ cursor.tokens.length := by
    rw [tokens, List.length_append, Array.length_toList]
    omega
  rw [peek]
  generalize cursor.fill _ = result at fills ⊢
  cases fills with
  | @filled next same enough =>
      have inside : offset < next.buffer.size := by omega
      have tokens : next.tokens = cursor.tokens := congrArg Backlog.tokens same
      rw [after, Array.getElem?_eq_getElem inside]
      refine .token ?_ same
      rw [← tokens, Cursor.tokens, List.getElem?_append_left (by simpa using inside),
        Array.getElem?_toList, Array.getElem?_eq_getElem inside]
  | @ended next same few quiet all =>
      have behind : cursor.tokens.length ≤ offset := by omega
      rw [after, Array.getElem?_eq_none (by rwa [← Array.length_toList, all])]
      exact .ended (List.getElem?_eq_none behind) quiet same
  | fault few pending left =>
      have behind : cursor.tokens.length ≤ offset := by omega
      exact .fault (List.getElem?_eq_none behind) pending left

variable {cursor next : Cursor}

theorem answer_of_ended (quiet : cursor.pending = none) (same : next.backlog = cursor.backlog)
    {α : Type} (atEnd : α) :
    cursor.backlog.answer none atEnd = (.ok atEnd, next.backlog) := by
  have readable : cursor.backlog.pending = none := quiet
  rw [Backlog.answer, Backlog.runOut, readable, same]

theorem answer_of_fault {fault : TokenFault} (pending : cursor.pending = some fault)
    (left : next.backlog = { cursor.backlog with pending := none }) {α : Type} (atEnd : α) :
    cursor.backlog.answer none atEnd = (.error (cursor.lexicalError fault), next.backlog) := by
  have unreported : cursor.backlog.pending = some fault := pending
  rw [Backlog.answer, Backlog.runOut, unreported, left]
  rfl

theorem peek_backlog (cursor : Cursor) (offset : Nat) :
    (cursor.peek offset).map id backlog =
      cursor.backlog.answer (cursor.tokens[offset]?.map some) none := by
  have peeks := cursor.peeks_peek offset
  generalize cursor.peek offset = result at peeks ⊢
  cases peeks with
  | token stands same => rw [stands, ← same]; rfl
  | ended behind quiet same =>
      rw [behind]
      exact (answer_of_ended quiet same none).symm
  | fault behind pending left =>
      rw [behind]
      exact (answer_of_fault pending left none).symm

/-! ## Looking ahead -/

/-- An answer that is used: what is told decides, and the end of the tokens leads to an answer again. -/
theorem after_backlog {α β : Type} {result : Except SyntaxError α × Cursor} {backlog : Backlog}
    {told : Option α} {atEnd : α} (looked : result.map id Cursor.backlog = backlog.answer told atEnd)
    {step : α → Cursor → Except SyntaxError β × Cursor}
    (shown : α → Backlog → Except SyntaxError β × Backlog)
    (each : ∀ answer next, (step answer next).map id Cursor.backlog = shown answer next.backlog)
    (final : β)
    (ends : told = none → backlog.pending = none → shown atEnd backlog = (.ok final, backlog)) :
    (after step result).map id Cursor.backlog =
      told.elim (backlog.runOut (.ok final)) fun answer => shown answer backlog := by
  have follows : (after step result).map id Cursor.backlog =
      after shown (result.map id Cursor.backlog) := by
    rcases result with ⟨error | answer, next⟩
    · rfl
    · exact each answer next
  rw [follows, looked]
  cases told with
  | some answer => rfl
  | none =>
      unfold Backlog.answer Backlog.runOut
      cases pending : backlog.pending with
      | some fault => rfl
      | none => exact ends rfl pending

/-- The first token from a place on that passes a test, with its place. -/
def firstFrom (test : Token → Bool) (offset : Nat) (tokens : List Token) : Option (Nat × Token) :=
  match (tokens.drop offset).dropWhile (!test ·) with
  | [] => none
  | token :: rest => some (tokens.length - (rest.length + 1), token)

theorem firstFrom_of_none {test : Token → Bool} {offset : Nat} {tokens : List Token}
    (behind : tokens[offset]? = none) : firstFrom test offset tokens = none := by
  rw [firstFrom, List.drop_eq_nil_of_le (List.getElem?_eq_none_iff.mp behind)]
  rfl

theorem firstFrom_of_some {test : Token → Bool} {offset : Nat} {tokens : List Token} {token : Token}
    (stands : tokens[offset]? = some token) :
    firstFrom test offset tokens =
      if test token then some (offset, token) else firstFrom test (offset + 1) tokens := by
  obtain ⟨inside, rfl⟩ := List.getElem?_eq_some_iff.mp stands
  have place : tokens.length - ((tokens.drop (offset + 1)).length + 1) = offset := by
    rw [List.length_drop]
    omega
  rw [firstFrom, List.drop_eq_getElem_cons inside, List.dropWhile_cons]
  cases test tokens[offset] with
  | true => simp only [Bool.not_true, Bool.false_eq_true, if_false, if_true, place]
  | false => rfl

theorem seek_backlog (test : Token → Bool) (offset : Nat) (cursor : Cursor) :
    (cursor.seek test offset).map id backlog =
      cursor.backlog.answer ((firstFrom test offset cursor.tokens).map some) none := by
  have peeked : ∀ {offset : Nat} {cursor : Cursor} {looked}, cursor.look offset = looked →
      cursor.Peeks offset looked.1 := fun equal => equal ▸ peeks_peek _ _
  fun_induction seek test offset cursor with
  | case1 offset cursor _ _ _ equal =>
      cases peeked equal with
      | fault behind pending left =>
          rw [firstFrom_of_none behind]
          exact (answer_of_fault pending left none).symm
  | case2 offset cursor _ _ equal =>
      cases peeked equal with
      | ended behind quiet same =>
          rw [firstFrom_of_none behind]
          exact (answer_of_ended quiet same none).symm
  | case3 offset cursor _ _ _ equal passes =>
      cases peeked equal with
      | token stands same =>
          rw [firstFrom_of_some stands, if_pos passes, ← same]
          rfl
  | case4 offset cursor _ next _ equal fails induction =>
      cases peeked equal with
      | token stands same =>
          have tokens : next.tokens = cursor.tokens := congrArg Backlog.tokens same
          rw [firstFrom_of_some stands, if_neg fails, induction, same, tokens]

theorem firstFrom_eq_none {test : Token → Bool} {offset : Nat} {tokens : List Token}
    (nowhere : (tokens.drop offset).dropWhile (!test ·) = []) : firstFrom test offset tokens = none := by
  rw [firstFrom, nowhere]

theorem firstFrom_eq_some {test : Token → Bool} {offset : Nat} {tokens rest : List Token}
    {token : Token} (found : (tokens.drop offset).dropWhile (!test ·) = token :: rest) :
    ∃ place, firstFrom test offset tokens = some (place, token) ∧ tokens[place]? = some token ∧
      tokens.drop (place + 1) = rest := by
  have suffix : token :: rest <:+ tokens :=
    found ▸ (List.dropWhile_suffix _).trans (List.drop_suffix offset tokens)
  obtain ⟨front, rfl⟩ := suffix
  have place : (front ++ token :: rest).length - (rest.length + 1) = front.length := by
    rw [List.length_append, List.length_cons, Nat.add_sub_cancel_right]
  refine ⟨front.length, ?_, ?_, ?_⟩
  · rw [firstFrom, found]
    simp only [place]
  · rw [List.getElem?_append_right (Nat.le_refl _), Nat.sub_self]
    rfl
  · rw [← List.drop_drop, List.drop_left]
    rfl

def useAt (tokens : List Token) (offset : Nat) : Option Bool :=
  tokens[offset]?.map (·.isWord "use")

/-- Whether the word `use` stands behind the first `)` from a place on; none if the tokens end before. -/
def useBehindScope (tokens : List Token) (offset : Nat) : Option Bool :=
  (firstFrom (·.kind = .closeParenthesis) offset tokens).bind fun closing =>
    useAt tokens (closing.1 + 1)

theorem standsUse_backlog (cursor : Cursor) (offset : Nat) :
    (cursor.standsUse offset).map id backlog =
      cursor.backlog.answer (useAt cursor.tokens offset) false := by
  refine (after_backlog (cursor.peek_backlog offset)
    (fun token backlog => (.ok (token.any (·.isWord "use")), backlog))
    (fun _ _ => rfl) _ (fun _ _ => rfl)).trans ?_
  rw [useAt]
  cases cursor.tokens[offset]? <;> rfl

theorem goesOn_drop (tokens : List Token) (offset : Nat) :
    SourceItem.goesOn (tokens.drop offset) =
      if tokens[offset]?.any (·.kind = .openParenthesis) then useBehindScope tokens offset
      else useAt tokens offset := by
  rw [useBehindScope, useAt]
  cases stands : tokens[offset]? with
  | none =>
      rw [List.drop_eq_nil_of_le (List.getElem?_eq_none_iff.mp stands)]
      rfl
  | some token =>
      obtain ⟨inside, rfl⟩ := List.getElem?_eq_some_iff.mp stands
      rw [List.drop_eq_getElem_cons inside, SourceItem.goesOn]
      by_cases opens : tokens[offset].kind = .openParenthesis
      · have passes : (decide (tokens[offset].kind = .closeParenthesis)) = false := by simp [opens]
        rw [if_pos opens, Option.any_some, if_pos (decide_eq_true opens), firstFrom_of_some stands,
          passes, if_neg Bool.false_ne_true]
        simp only [ne_eq, decide_not]
        cases found : (tokens.drop (offset + 1)).dropWhile
            fun token => !decide (token.kind = .closeParenthesis) with
        | nil => rw [firstFrom_eq_none found]; rfl
        | cons closing rest =>
            obtain ⟨place, first, -, behind⟩ := firstFrom_eq_some found
            rw [first, Option.bind_some, useAt, ← List.head?_drop, behind]
            cases rest <;> rfl
      · rw [if_neg opens, Option.any_some, if_neg (by simpa using opens)]
        rfl

theorem goesOn_backlog (cursor : Cursor) (offset : Nat) :
    (cursor.goesOn offset).map id backlog =
      cursor.backlog.answer (SourceItem.goesOn (cursor.tokens.drop offset)) false := by
  refine (after_backlog (cursor.peek_backlog offset)
    (fun token backlog => if token.any (·.kind = .openParenthesis) then
        backlog.answer (useBehindScope backlog.tokens offset) false
      else backlog.answer (useAt backlog.tokens offset) false) ?_ false ?_).trans ?_
  · intro token next
    split
    · refine (after_backlog (next.seek_backlog _ offset)
        (fun closing backlog => closing.elim (.ok false, backlog) fun found =>
          backlog.answer (useAt backlog.tokens (found.1 + 1)) false)
        ?_ false (fun _ _ => rfl)).trans ?_
      · rintro (_ | ⟨place, _⟩) next
        · rfl
        · exact next.standsUse_backlog (place + 1)
      · rw [useBehindScope, show next.backlog.tokens = next.tokens from rfl]
        cases firstFrom _ offset next.tokens <;> rfl
    · exact next.standsUse_backlog offset
  · intro ended readable
    rw [Option.map_eq_none_iff] at ended
    change (if _ then _ else cursor.backlog.answer (useAt cursor.tokens offset) false) = _
    rw [Option.any_none, if_neg Bool.false_ne_true, useAt, ended]
    simp only [Backlog.answer, Backlog.runOut, readable, Option.map_none]
  · rw [goesOn_drop]
    change (Option.map some cursor.tokens[offset]?).elim _ (fun token =>
      if Option.any _ token then cursor.backlog.answer (useBehindScope cursor.tokens offset) false else
        cursor.backlog.answer (useAt cursor.tokens offset) false) = _
    cases stands : cursor.tokens[offset]? with
    | none =>
      rw [useAt, stands]
      rfl
    | some token => exact (apply_ite (cursor.backlog.answer · false) _ _ _).symm

theorem startsItem_backlog (cursor : Cursor) :
    cursor.startsItem.map id backlog = cursor.backlog.startsItem := by
  refine (after_backlog (cursor.seek_backlog _ 0)
    (fun first backlog => first.elim (.ok false, backlog) fun found =>
      if found.2.isWord "pub" then
        backlog.answer (SourceItem.goesOn (backlog.tokens.drop (found.1 + 1))) false
      else backlog.answer (useAt backlog.tokens found.1) false) ?_ false (fun _ _ => rfl)).trans ?_
  · rintro (_ | ⟨place, token⟩) next
    · rfl
    · dsimp only [Option.elim_some]
      split
      · exact next.goesOn_backlog (place + 1)
      · exact next.standsUse_backlog place
  · rw [Backlog.startsItem]
    change _ = cursor.backlog.answer (SourceItem.begins cursor.tokens) false
    rw [SourceItem.begins]
    have passes : (cursor.tokens.drop 0).dropWhile (fun token => !decide (token.kind ≠ .attribute)) =
        cursor.tokens.dropWhile fun token => token.kind = .attribute := by
      simp only [ne_eq, decide_not, Bool.not_not, List.drop_zero]
    cases found : cursor.tokens.dropWhile fun token => token.kind = .attribute with
    | nil =>
        rw [firstFrom_eq_none (passes.trans found)]
        rfl
    | cons token rest =>
        obtain ⟨place, first, stands, behind⟩ := firstFrom_eq_some (passes.trans found)
        rw [first]
        change (if _ then
            cursor.backlog.answer (SourceItem.goesOn (cursor.tokens.drop (place + 1))) false
          else cursor.backlog.answer (useAt cursor.tokens place) false) = _
        rw [behind, useAt, stands]
        exact (apply_ite (cursor.backlog.answer · false) _ _ _).symm

theorem atEnd_backlog (cursor : Cursor) : cursor.atEnd.map id backlog = cursor.backlog.atEnd := by
  refine (after_backlog (cursor.peek_backlog 0) (fun token backlog => (.ok token.isNone, backlog))
    (fun _ _ => rfl) _ (fun _ _ => rfl)).trans ?_
  rw [Backlog.atEnd, List.head?_eq_getElem?]
  change _ = cursor.backlog.answer (cursor.tokens[0]?.map _) true
  cases cursor.tokens[0]? <;> rfl

/-! ## Reading -/

inductive Front (cursor : Cursor) : Except SyntaxError (Option Token) × Cursor → Prop
  | token {token : Token} {rest : List Token} {next : Cursor} (tokens : cursor.tokens = token :: rest)
      (same : next.backlog = cursor.backlog)
      (behind : next.advance.backlog = { cursor.backlog with tokens := rest }) :
      Front cursor (.ok (some token), next)
  | ended {next : Cursor} (tokens : cursor.tokens = []) (quiet : cursor.pending = none)
      (same : next.backlog = cursor.backlog) : Front cursor (.ok none, next)
  | fault {fault : TokenFault} {next : Cursor} (tokens : cursor.tokens = [])
      (pending : cursor.pending = some fault)
      (left : next.backlog = { cursor.backlog with pending := none }) :
      Front cursor (.error (cursor.lexicalError fault), next)

theorem tokens_advance {cursor : Cursor} (waits : 0 < cursor.buffer.size) :
    cursor.advance.tokens = cursor.tokens.tail := by
  have buffered : cursor.buffer.toList ≠ [] := by
    rw [← List.length_pos_iff, Array.length_toList]
    exact waits
  rw [tokens, tokens, advance, Array.toList_extract, List.tail_append_of_ne_nil buffered,
    List.extract_eq_drop_take', ← Array.length_toList, List.take_length, List.drop_one]

theorem front_front (cursor : Cursor) : cursor.Front cursor.front.1 := by
  change cursor.Front (cursor.peek 0)
  have peeks := cursor.peeks_peek 0
  generalize equal : cursor.peek 0 = result at peeks ⊢
  cases peeks with
  | @token token next stands same =>
      rw [← List.head?_eq_getElem?, List.head?_eq_some_iff] at stands
      obtain ⟨rest, tokens⟩ := stands
      refine .token tokens same ?_
      have behind : next.advance.tokens = rest := by
        rw [tokens_advance (lt_size_of_peek equal), show next.tokens = cursor.tokens from
          congrArg Backlog.tokens same, tokens, List.tail_cons]
      rw [← behind, ← same]
      rfl
  | ended behind quiet same =>
      exact .ended (List.length_eq_zero_iff.mp (Nat.le_zero.mp (List.getElem?_eq_none_iff.mp behind)))
        quiet same
  | fault behind pending left =>
      exact .fault (List.length_eq_zero_iff.mp (Nat.le_zero.mp (List.getElem?_eq_none_iff.mp behind)))
        pending left

theorem front_of {cursor : Cursor} {looked} (equal : cursor.front = looked) :
    cursor.Front looked.1 := equal ▸ cursor.front_front

theorem skipInnerAttributes_backlog (cursor : Cursor) :
    cursor.skipInnerAttributes.map id backlog = cursor.backlog.skipInnerAttributes := by
  fun_induction skipInnerAttributes cursor with
  | case1 cursor _ _ _ equal =>
      cases front_of equal with
      | fault tokens pending left =>
          rw [Backlog.skipInnerAttributes_nil tokens, answer_of_fault pending left]
          rfl
  | case2 cursor _ _ equal =>
      cases front_of equal with
      | ended tokens quiet same =>
          rw [Backlog.skipInnerAttributes_nil tokens, answer_of_ended quiet same]
          rfl
  | case3 cursor _ _ _ equal inner induction =>
      cases front_of equal with
      | token tokens same behind =>
          rw [induction, behind]
          exact ((Backlog.skipInnerAttributes_cons tokens).trans (if_pos inner)).symm
  | case4 cursor _ _ _ equal other =>
      cases front_of equal with
      | token tokens same behind =>
          rw [Backlog.skipInnerAttributes_cons tokens, if_neg other, ← same]
          rfl

theorem readFrom_backlog (state : ItemState) (cursor : Cursor) :
    (cursor.readFrom state).map id backlog = cursor.backlog.readFrom state := by
  fun_induction readFrom state cursor with
  | case1 state cursor _ _ _ equal =>
      cases front_of equal with
      | fault tokens pending left =>
          rw [Backlog.readFrom_nil tokens, Backlog.runOut, show cursor.backlog.pending = _ from pending, ← left]
          rfl
  | case2 state cursor _ _ equal =>
      cases front_of equal with
      | ended tokens quiet same =>
          rw [Backlog.readFrom_nil tokens, Backlog.runOut, show cursor.backlog.pending = _ from quiet, ← same]
          rfl
  | case3 state cursor _ _ _ equal _ taken induction =>
      cases front_of equal with
      | token tokens same behind =>
          have read := @Backlog.readFrom_cons state cursor.backlog _ _ tokens
          rw [taken] at read
          rw [induction, behind]
          exact read.symm
  | case4 state cursor _ _ _ equal _ taken =>
      cases front_of equal with
      | token tokens same behind =>
          rw [Backlog.readFrom_cons tokens, taken, ← behind]
          rfl
  | case5 state cursor _ _ _ equal _ taken =>
      cases front_of equal with
      | token tokens same behind =>
          rw [Backlog.readFrom_cons tokens, taken, ← behind, ← same]
          change (_, backlog (if _ then _ else _)) = (_, if _ then _ else _)
          rw [apply_ite backlog]
          rfl

theorem readItem_backlog (cursor : Cursor) :
    cursor.readItem.map id backlog = cursor.backlog.readItem := by
  have read := cursor.readFrom_backlog .initial
  rw [readItem, Backlog.readItem, ← read]
  rcases cursor.readFrom .initial with ⟨error | item, next⟩ <;> rfl

theorem goesFurther_backlog (cursor : Cursor) :
    cursor.goesFurther.map id backlog =
      cursor.backlog.answer (cursor.tokens.head?.map fun _ => true) false := by
  refine (after_backlog cursor.atEnd_backlog (fun ended backlog => (.ok !ended, backlog))
    (fun _ _ => rfl) _ (fun _ _ => rfl)).trans ?_
  rw [show cursor.backlog.tokens = cursor.tokens from rfl]
  cases cursor.tokens <;> rfl

theorem readWhile_backlog {comes : (cursor : Cursor) →
      { looked : Except SyntaxError Bool × Cursor // looked.2.size ≤ cursor.size }}
    {told : List Token → Option Bool}
    (comes_backlog : ∀ cursor,
      (comes cursor).1.map id backlog = cursor.backlog.answer (told cursor.tokens) false)
    {read : Backlog → Except SyntaxError (List Statement)} (reads : Backlog.Reads told read)
    (cursor : Cursor) : cursor.readWhile comes = read cursor.backlog := by
  have pulled : ∀ {cursor : Cursor} {taken}, cursor.pull = taken →
      taken.1.map id backlog = cursor.backlog.readItem :=
    fun {cursor _} equal => equal ▸ cursor.readItem_backlog
  fun_induction readWhile comes cursor with
  | case1 cursor _ _ _ looked | case2 cursor _ _ looked =>
      have look := comes_backlog cursor
      rw [looked] at look
      rw [reads cursor.backlog]
      exact congrArg (Backlog.readOn read) look
  | case3 cursor here _ looked error next _ failed =>
      have look := comes_backlog cursor
      rw [looked] at look
      rw [reads cursor.backlog, ← Backlog.readOn_of_failure read (pulled failed).symm]
      exact congrArg (Backlog.readOn read) look
  | case4 cursor here _ looked statement next _ item induction =>
      have look := comes_backlog cursor
      rw [looked] at look
      rw [reads cursor.backlog, induction, ← Backlog.readOn_of_item read (pulled item).symm]
      exact congrArg (Backlog.readOn read) look

theorem readAll_backlog (cursor : Cursor) : cursor.readAll = cursor.backlog.readAll :=
  readWhile_backlog goesFurther_backlog Backlog.reads_readAll cursor

theorem readLeading_backlog (cursor : Cursor) : cursor.readLeading = cursor.backlog.readLeading :=
  readWhile_backlog startsItem_backlog Backlog.reads_readLeading cursor

theorem backlog_ofText (text : String) (fragment : Option Int) :
    (ofText text fragment).backlog = Backlog.ofText text fragment := by
  have pending : (ofText text fragment).pending = (TokenStream.ofText text.toList).fault := by
    rw [Cursor.pending, ofText, Tokenizer.ofText, Tokenizer.pending, TokenStream.ofText]
    simp only [Nat.zero_add]
  rw [backlog, pending]
  rfl

end Cursor

/-! ## Texts -/

namespace Statement

theorem parse_eq (text : String) (fragment : Option Int) :
    parse text fragment = (Backlog.ofText text fragment).readAll := by
  rw [parse, Cursor.readAll_backlog, Cursor.backlog_ofText]

theorem scan_eq (text : String) :
    scan text = (Backlog.ofText text (some 0)).skipInnerAttributes.1.bind fun _ =>
      (Backlog.ofText text (some 0)).skipInnerAttributes.2.readLeading := by
  rw [scan, ← Cursor.backlog_ofText, ← Cursor.skipInnerAttributes_backlog]
  exact congrArg _ (funext fun _ => Cursor.readLeading_backlog _)

end Statement

end ImportBlock