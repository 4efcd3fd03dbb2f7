import ImportBlock.Proofs.Statement.Buffer

/-! Calls on a cursor, one after the other, and what each of them answers. Looking ahead reads nothing:
what the other calls read does not depend on the looks between them, nor on which calls failed. A look
can be noticed in one way only, namely where it reports the fault of a text before another call does. -/

namespace ImportBlock

/-- A call that looks ahead. -/
inductive Look
  | atEnd
  | startsItem
deriving DecidableEq, Repr

inductive Call
  | look (look : Look)
  | skipInnerAttributes
  | readItem
deriving DecidableEq, Repr

/-- What a call gives that does not fail. -/
inductive Reply
  | truth (answer : Bool)
  | done
  | item (statement : Statement)

/-- A change of a sequence of calls: a look is put in, or one is taken out. The other calls stay. -/
inductive Edit
  | stays (call : Call)
  | putIn (look : Look)
  | takenOut (look : Look)

namespace Edit

def before? : Edit → Option Call
  | .stays call => some call
  | .putIn _ => none
  | .takenOut look => some (.look look)

def after? : Edit → Option Call
  | .stays call => some call
  | .putIn look => some (.look look)
  | .takenOut _ => none

end Edit

namespace Cursor

def ask (cursor : Cursor) : Call → Except SyntaxError Reply × Cursor
  | .look .atEnd => cursor.atEnd.map (·.map .truth) id
  | .look .startsItem => cursor.startsItem.map (·.map .truth) id
  | .skipInnerAttributes => cursor.skipInnerAttributes.map (·.map fun _ => .done) id
  | .readItem => cursor.readItem.map (·.map .item) id

def behind (cursor : Cursor) (calls : List Call) : Cursor :=
  calls.foldl (fun cursor call => (cursor.ask call).2) cursor

def answers (cursor : Cursor) : List Call → List (Except SyntaxError Reply)
  | [] => []
  | call :: others => (cursor.ask call).1 :: (cursor.ask call).2.answers others

/-! A look ahead is no idle call: it cuts as many tokens into the buffer as it looks at. -/

example : (ofText "#[a]pub use b;" none).startsItem.2.buffer.size = 3 ∧
    (ofText "#[a]pub use b;" none).startsItem.2.unread = ⟨" b;".toList, 11⟩ := by
  constructor <;> cbv

end Cursor

/-! ## What one call reads -/

theorem SourceItem.readFrom_suffix (state : ItemState) (tokens : List Token) :
    (readFrom state tokens).2 <:+ tokens := by
  fun_induction readFrom state tokens with
  | case1 => exact List.suffix_rfl
  | case2 state token rest next _ induction => exact induction.trans (List.suffix_cons token rest)
  | case3 state token rest => exact List.suffix_cons token rest
  | case4 state token rest =>
      split
      · exact List.suffix_cons token rest
      · exact List.suffix_rfl

namespace Backlog

def ask (backlog : Backlog) : Call → Except SyntaxError Reply × Backlog
  | .look .atEnd => backlog.atEnd.map (·.map .truth) id
  | .look .startsItem => backlog.startsItem.map (·.map .truth) id
  | .skipInnerAttributes => backlog.skipInnerAttributes.map (·.map fun _ => .done) id
  | .readItem => backlog.readItem.map (·.map .item) id

def rest : Call → List Token → List Token
  | .look _, tokens => tokens
  | .skipInnerAttributes, tokens => tokens.dropWhile fun token => token.kind = .innerAttribute
  | .readItem, tokens => (SourceItem.read tokens).2

theorem rest_suffix (call : Call) (tokens : List Token) : rest call tokens <:+ tokens := by
  cases call with
  | look => exact List.suffix_rfl
  | skipInnerAttributes => exact List.dropWhile_suffix _
  | readItem => exact SourceItem.readFrom_suffix .initial tokens

/-- What a call can do: the tokens that it reads depend on nothing but the tokens, and the fault behind them
is either left alone or reported. -/
inductive Advances (backlog : Backlog) (call : Call) : Except SyntaxError Reply × Backlog → Prop
  | quiet (answer : Except SyntaxError Reply) :
      Advances backlog call (answer, { backlog with tokens := rest call backlog.tokens })
  | reports {pending : TokenFault} (isPending : backlog.pending = some pending) :
      Advances backlog call (.error (backlog.lexicalError pending),
        { backlog with tokens := rest call backlog.tokens, pending := none })

theorem advances_runOut {α : Type} {backlog : Backlog} {call : Call} {tokens : List Token}
    (read : rest call backlog.tokens = tokens) (answer : Except SyntaxError α) (reply : α → Reply) :
    Advances backlog call
      ((runOut { backlog with tokens } answer).map (·.map reply) id) := by
  subst read
  unfold runOut
  split
  · next pending isPending => exact .reports isPending
  · exact .quiet _

theorem advances_quiet {backlog : Backlog} {call : Call} {tokens : List Token}
    (read : rest call backlog.tokens = tokens) (answer : Except SyntaxError Reply) :
    Advances backlog call (answer, { backlog with tokens }) := by
  subst read
  exact .quiet answer

theorem advances_answer {α : Type} {backlog : Backlog} {look : Look} (told : Option α) (atEnd : α)
    (reply : α → Reply) :
    Advances backlog (.look look) ((backlog.answer told atEnd).map (·.map reply) id) := by
  cases told with
  | some answer => exact .quiet _
  | none => exact advances_runOut rfl _ reply

theorem advances_ask (backlog : Backlog) (call : Call) : Advances backlog call (backlog.ask call) := by
  rcases call with ⟨_ | _⟩ | _ | _
  · exact advances_answer _ _ _
  · exact advances_answer _ _ _
  · rw [ask, skipInnerAttributes]
    split
    · exact advances_runOut rfl _ _
    · exact .quiet _
  · rw [ask, readItem_eq]
    split
    · next read => exact @advances_quiet backlog .readItem _ (congrArg Prod.snd read) _
    · next read => exact @advances_quiet backlog .readItem _ (congrArg Prod.snd read) _
    · next read => exact @advances_runOut _ backlog .readItem _ (congrArg Prod.snd read) _ _

theorem tokens_ask (backlog : Backlog) (call : Call) :
    (backlog.ask call).2.tokens = rest call backlog.tokens := by
  have advances := advances_ask backlog call
  generalize backlog.ask call = result at advances ⊢
  cases advances <;> rfl

theorem ask_of_readable {backlog : Backlog} (readable : backlog.pending = none) (call : Call) :
    (backlog.ask call).2 = { backlog with tokens := rest call backlog.tokens } := by
  have advances := advances_ask backlog call
  generalize backlog.ask call = result at advances ⊢
  cases advances with
  | quiet => rfl
  | reports isPending =>
      rw [readable] at isPending
      cases isPending

/-! ## What some calls read -/

def restBehind (calls : List Call) (tokens : List Token) : List Token :=
  calls.foldl (fun tokens call => rest call tokens) tokens

theorem restBehind_suffix (calls : List Call) (tokens : List Token) :
    restBehind calls tokens <:+ tokens := by
  induction calls generalizing tokens with
  | nil => exact List.suffix_rfl
  | cons call others induction => exact (induction _).trans (rest_suffix call tokens)

theorem restBehind_edits (edits : List Edit) (tokens : List Token) :
    restBehind (edits.filterMap Edit.before?) tokens =
      restBehind (edits.filterMap Edit.after?) tokens := by
  induction edits generalizing tokens with
  | nil => rfl
  | cons edit others induction =>
      cases edit with
      | stays call => exact induction (rest call tokens)
      | putIn look => exact induction tokens
      | takenOut look => exact induction tokens

end Backlog

namespace Cursor

open Backlog (rest restBehind restBehind_edits restBehind_suffix)

theorem ask_backlog (cursor : Cursor) (call : Call) :
    (cursor.ask call).map id backlog = cursor.backlog.ask call := by
  rcases call with ⟨_ | _⟩ | _ | _
  · rw [Backlog.ask, ← atEnd_backlog]; rfl
  · rw [Backlog.ask, ← startsItem_backlog]; rfl
  · rw [Backlog.ask, ← skipInnerAttributes_backlog]; rfl
  · rw [Backlog.ask, ← readItem_backlog]; rfl

/-- The buffer and the tokens still to come are, one after the other, a suffix of what they were. -/
theorem tokens_ask (cursor : Cursor) (call : Call) :
    (cursor.ask call).2.tokens = rest call cursor.tokens := by
  have asked := cursor.backlog.tokens_ask call
  rw [← ask_backlog] at asked
  exact asked

theorem tokens_behind (cursor : Cursor) (calls : List Call) :
    (cursor.behind calls).tokens = restBehind calls cursor.tokens := by
  induction calls generalizing cursor with
  | nil => rfl
  | cons call others induction =>
      rw [behind, List.foldl_cons, ← behind, induction, tokens_ask]
      rfl

theorem backlog_behind_of_readable {cursor : Cursor} (readable : cursor.pending = none)
    (calls : List Call) : (cursor.behind calls).backlog =
      { cursor.backlog with tokens := restBehind calls cursor.tokens } := by
  induction calls generalizing cursor with
  | nil => rfl
  | cons call others induction =>
      have asked : (cursor.ask call).2.backlog =
          { cursor.backlog with tokens := rest call cursor.tokens } :=
        (congrArg Prod.snd (cursor.ask_backlog call)).trans
          (@Backlog.ask_of_readable cursor.backlog readable call)
      have readable' : (cursor.ask call).2.pending = none :=
        (congrArg Backlog.pending asked).trans readable
      rw [behind, List.foldl_cons, ← behind, induction readable', asked, tokens_ask]
      rfl

theorem getElem?_answers (cursor : Cursor) (front : List Call) (call : Call) (back : List Call) :
    (cursor.answers (front ++ call :: back))[front.length]? =
      some ((cursor.behind front).ask call).1 := by
  induction front generalizing cursor with
  | nil => rfl
  | cons first others induction => exact induction (cursor.ask first).2

/-- What a call answers is told by what is left, whatever of it waits in the buffer. -/
theorem fst_ask_congr {cursor other : Cursor} (same : cursor.backlog = other.backlog) (call : Call) :
    (cursor.ask call).1 = (other.ask call).1 := by
  have asked := cursor.ask_backlog call
  rw [same, ← ask_backlog] at asked
  exact (congrArg Prod.fst asked :)

/-- Let looks be put into a sequence of calls or taken out of it, anywhere. Then the buffer and the tokens
still to come are together what they were before the change, and a suffix of the tokens of the text. If the
text has no fault, a call that stays has the same answer as before, be it an error or not. -/
theorem answers_of_edits (text : String) (fragment : Option Int) (ahead later : List Edit)
    (call : Call) :
    let before := (ofText text fragment).behind (ahead.filterMap Edit.before?)
    let after := (ofText text fragment).behind (ahead.filterMap Edit.after?)
    before.buffer.toList ++ before.unread.tokens = after.buffer.toList ++ after.unread.tokens ∧
    before.buffer.toList ++ before.unread.tokens <:+ (TokenStream.ofText text.toList).tokens ∧
    ((TokenStream.ofText text.toList).fault = none → ∃ answer,
      ((ofText text fragment).answers ((ahead ++ .stays call :: later).filterMap Edit.before?))[
        (ahead.filterMap Edit.before?).length]? = some answer ∧
      ((ofText text fragment).answers ((ahead ++ .stays call :: later).filterMap Edit.after?))[
        (ahead.filterMap Edit.after?).length]? = some answer) := by
  intro before after
  have whole : (ofText text fragment).tokens = (TokenStream.ofText text.toList).tokens :=
    congrArg Backlog.tokens (backlog_ofText text fragment)
  refine ⟨?_, ?_, ?_⟩
  · change before.tokens = after.tokens
    rw [tokens_behind, tokens_behind, restBehind_edits]
  · change before.tokens <:+ _
    rw [tokens_behind, whole]
    exact restBehind_suffix _ _
  · intro readable
    have readable : (ofText text fragment).pending = none :=
      (congrArg Backlog.pending (backlog_ofText text fragment)).trans readable
    have same : before.backlog = after.backlog := by
      rw [backlog_behind_of_readable readable, backlog_behind_of_readable readable, restBehind_edits]
    refine ⟨(before.ask call).1, ?_, ?_⟩
    · rw [List.filterMap_append]
      exact getElem?_answers _ _ _ _
    · rw [List.filterMap_append, fst_ask_congr same]
      exact getElem?_answers _ _ _ _

theorem answers_of_edits_behind_failure :
    (TokenStream.ofText "pub(a use b;".toList).fault = none ∧
    ((ofText "pub(a use b;" (some 0)).answers [.look .atEnd, .readItem, .readItem])[2]? =
      some (.ok (.item ⟨.name "b", {}, some 0, some ⟨6, 12⟩⟩)) ∧
    ((ofText "pub(a use b;" (some 0)).answers
      [.look .startsItem, .readItem, .look .atEnd, .readItem])[3]? =
        some (.ok (.item ⟨.name "b", {}, some 0, some ⟨6, 12⟩⟩)) := by
  have readable : (TokenStream.ofText "pub(a use b;".toList).fault = none := by cbv
  have value : ((ofText "pub(a use b;" (some 0)).answers [.look .atEnd, .readItem, .readItem])[2]? =
      some (.ok (.item ⟨.name "b", {}, some 0, some ⟨6, 12⟩⟩)) := by cbv
  rcases (answers_of_edits "pub(a use b;" (some 0)
    [.takenOut .atEnd, .putIn .startsItem, .stays .readItem, .putIn .atEnd] [] .readItem).2.2
      readable with ⟨answer, before, after⟩
  have same : some answer = some (.ok (.item ⟨.name "b", {}, some 0, some ⟨6, 12⟩⟩)) :=
    before.symm.trans value
  exact ⟨readable, value, after.trans same⟩

/-! In a text with a fault a look can be the call that reports it. -/

example : (ofText "/*" (some 0)).answers [.readItem] =
    [.error ⟨.openComment, some 0, some 1, some 1⟩] := by cbv

example : (ofText "/*" (some 0)).answers [.look .atEnd, .readItem] =
    [.error ⟨.openComment, some 0, some 1, some 1⟩, .error ⟨.noItem, some 0, some 1, some 3⟩] := by
  cbv

end Cursor

end ImportBlock
