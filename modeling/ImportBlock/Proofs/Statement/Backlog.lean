import ImportBlock.Statement.Cursor
import Mathlib

/-! What is left of a text to read, as a list of tokens with the fault behind it, and reading on from it.
Here all the tokens are cut beforehand, and nothing tells whether a token waits in a buffer or not. -/

namespace ImportBlock

/-! ## Reading a list of tokens -/

/-- Why and where no item can be read. -/
structure Refusal where
  fault : SyntaxFault
  /-- The token at fault; none at the end of the text. -/
  token : Option Token

namespace SourceItem

def readFrom (state : ItemState) : List Token → Except Refusal SourceItem × List Token
  | [] => (.error ⟨state.faultAtEnd, none⟩, [])
  | token :: rest =>
      match state.take token with
      | .on next => readFrom next rest
      | .complete item => (.ok item, rest)
      | .refused fault =>
          (.error ⟨fault, some token⟩, if state.swallows token then rest else token :: rest)

def read (tokens : List Token) : Except Refusal SourceItem × List Token := readFrom .initial tokens

theorem length_readFrom {state : ItemState} {tokens : List Token} {item : SourceItem}
    (success : (readFrom state tokens).1 = .ok item) :
    (readFrom state tokens).2.length < tokens.length := by
  fun_induction readFrom state tokens with
  | case1 => simp at success
  | case2 state token rest next equal induction =>
      exact Nat.lt_succ_of_lt (induction success)
  | case3 => simp
  | case4 => simp at success

/-- Whether the tokens after a `pub` go on with the word `use`; none if they end before that
shows. -/
def goesOn : List Token → Option Bool
  | [] => none
  | token :: rest =>
      if token.kind = .openParenthesis then
        match rest.dropWhile fun token => token.kind ≠ .closeParenthesis with
        | _ :: next :: _ => some (next.isWord "use")
        | _ => none
      else some (token.isWord "use")

/-- Whether tokens begin with attributes, a visibility and the word `use`; none if they end before
that shows. -/
def begins (tokens : List Token) : Option Bool :=
  match tokens.dropWhile fun token => token.kind = .attribute with
  | [] => none
  | token :: rest => if token.isWord "pub" then goesOn rest else some (token.isWord "use")

end SourceItem

/-! ## What is left -/

structure Backlog extends Origin where
  tokens : List Token
  /-- The fault behind the last token, if it was not reported yet. -/
  pending : Option TokenFault

namespace Backlog

def ofText (text : String) (fragment : Option Int) : Backlog :=
  let stream := TokenStream.ofText text.toList
  ⟨⟨text.toList, fragment⟩, stream.tokens, stream.fault⟩

/-- Looks behind the last token. If there is no fault, the answer is the given one. -/
def runOut {α : Type} (backlog : Backlog) (atEnd : Except SyntaxError α) :
    Except SyntaxError α × Backlog :=
  match backlog.pending with
  | some pending => (.error (backlog.lexicalError pending), { backlog with pending := none })
  | none => (atEnd, backlog)

/-- What a call answers that looks ahead: what the tokens tell, or else what holds at their end. -/
def answer {α : Type} (backlog : Backlog) (told : Option α) (atEnd : α) :
    Except SyntaxError α × Backlog :=
  match told with
  | some answer => (.ok answer, backlog)
  | none => backlog.runOut (.ok atEnd)

def atEnd (backlog : Backlog) : Except SyntaxError Bool × Backlog :=
  backlog.answer (backlog.tokens.head?.map fun _ => false) true

def skipInnerAttributes (backlog : Backlog) : Except SyntaxError Unit × Backlog :=
  let rest := backlog.tokens.dropWhile fun token => token.kind = .innerAttribute
  let next := { backlog with tokens := rest }
  match rest with
  | [] => next.runOut (.ok ())
  | _ :: _ => (.ok (), next)

/-- Whether a use item stands next. Looking ahead reads nothing. -/
def startsItem (backlog : Backlog) : Except SyntaxError Bool × Backlog :=
  backlog.answer (SourceItem.begins backlog.tokens) false

def readFrom (state : ItemState) (backlog : Backlog) : Except SyntaxError SourceItem × Backlog :=
  match SourceItem.readFrom state backlog.tokens with
  | (.ok item, rest) => (.ok item, { backlog with tokens := rest })
  | (.error ⟨fault, some token⟩, rest) =>
      (.error (backlog.errorAt token.start fault), { backlog with tokens := rest })
  | (.error ⟨fault, none⟩, rest) =>
      { backlog with tokens := rest }.runOut (.error (backlog.errorAt backlog.source.length fault))

def readItem (backlog : Backlog) : Except SyntaxError Statement × Backlog :=
  backlog.readFrom .initial |> after fun item next =>
    (.ok ⟨item.tree, item.metadata, backlog.fragment, some item.span⟩, next)

theorem readItem_eq (backlog : Backlog) : backlog.readItem =
    match SourceItem.read backlog.tokens with
    | (.ok item, rest) =>
        (.ok ⟨item.tree, item.metadata, backlog.fragment, some item.span⟩,
          { backlog with tokens := rest })
    | (.error ⟨fault, some token⟩, rest) =>
        (.error (backlog.errorAt token.start fault), { backlog with tokens := rest })
    | (.error ⟨fault, none⟩, rest) =>
        { backlog with tokens := rest }.runOut
          (.error (backlog.errorAt backlog.source.length fault)) := by
  rw [readItem, readFrom, SourceItem.read]
  rcases SourceItem.readFrom .initial backlog.tokens with ⟨⟨fault, _ | token⟩ | item, rest⟩
  · rcases backlog with ⟨origin, tokens, _ | pending⟩ <;> rfl
  · rfl
  · rfl

theorem length_readItem {backlog next : Backlog} {statement : Statement}
    (success : backlog.readItem = (.ok statement, next)) :
    next.tokens.length < backlog.tokens.length := by
  rw [readItem_eq] at success
  split at success
  · next item rest equal =>
      have shorter : (SourceItem.read backlog.tokens).2.length < backlog.tokens.length :=
        SourceItem.length_readFrom (by rw [← SourceItem.read, equal])
      rw [equal] at shorter
      cases success
      exact shorter
  · cases success
  · unfold runOut at success
    split at success <;> cases success

def readAll (backlog : Backlog) : Except SyntaxError (List Statement) :=
  match backlog.tokens with
  | [] => (backlog.runOut (.ok [])).1
  | _ :: _ =>
      match _equal : backlog.readItem with
      | (.error error, _) => .error error
      | (.ok statement, next) => (readAll next).map (statement :: ·)
termination_by backlog.tokens.length
decreasing_by exact length_readItem ‹_›

def readLeading (backlog : Backlog) : Except SyntaxError (List Statement) :=
  match SourceItem.begins backlog.tokens with
  | none => (backlog.runOut (.ok [])).1
  | some false => .ok []
  | some true =>
      match _equal : backlog.readItem with
      | (.error error, _) => .error error
      | (.ok statement, next) => (readLeading next).map (statement :: ·)
termination_by backlog.tokens.length
decreasing_by exact length_readItem ‹_›

/-! ## One token after the other -/

theorem skipInnerAttributes_nil {backlog : Backlog} (tokens : backlog.tokens = []) :
    backlog.skipInnerAttributes = backlog.answer none () := by
  cases backlog
  subst tokens
  rfl

theorem skipInnerAttributes_cons {backlog : Backlog} {token : Token} {rest : List Token}
    (tokens : backlog.tokens = token :: rest) :
    backlog.skipInnerAttributes =
      if token.kind = .innerAttribute then { backlog with tokens := rest }.skipInnerAttributes
      else (.ok (), backlog) := by
  cases backlog
  subst tokens
  rw [Backlog.skipInnerAttributes, List.dropWhile_cons]
  by_cases inner : token.kind = .innerAttribute
  · simp only [inner, decide_true, if_true]
    rfl
  · simp only [inner, decide_false, if_false, Bool.false_eq_true]

theorem readFrom_nil {state : ItemState} {backlog : Backlog} (tokens : backlog.tokens = []) :
    backlog.readFrom state =
      backlog.runOut (.error (backlog.errorAt backlog.source.length state.faultAtEnd)) := by
  cases backlog
  subst tokens
  rfl

theorem readFrom_cons {state : ItemState} {backlog : Backlog} {token : Token} {rest : List Token}
    (tokens : backlog.tokens = token :: rest) :
    backlog.readFrom state =
      match state.take token with
      | .on next => { backlog with tokens := rest }.readFrom next
      | .complete item => (.ok item, { backlog with tokens := rest })
      | .refused fault =>
          (.error (backlog.errorAt token.start fault),
            if state.swallows token then { backlog with tokens := rest } else backlog) := by
  cases backlog
  subst tokens
  rw [readFrom, SourceItem.readFrom]
  cases state.take token with
  | on => rfl
  | complete => rfl
  | refused fault => cases swallowed : state.swallows token <;> rfl

/-- What follows a look that says whether an item comes: the item, if one comes, and all that `read` reads
behind it. -/
def readOn (read : Backlog → Except SyntaxError (List Statement))
    (looked : Except SyntaxError Bool × Backlog) : Except SyntaxError (List Statement) :=
  looked.1.bind fun comes =>
    if comes then
      looked.2.readItem.1.bind fun statement => (read looked.2.readItem.2).map (statement :: ·)
    else .ok []

theorem readOn_of_failure (read : Backlog → Except SyntaxError (List Statement))
    {backlog next : Backlog} {error : SyntaxError} (failed : backlog.readItem = (.error error, next)) :
    readOn read (.ok true, backlog) = .error error := by
  change backlog.readItem.1.bind _ = _
  rw [failed]
  rfl

theorem readOn_of_item (read : Backlog → Except SyntaxError (List Statement))
    {backlog next : Backlog} {statement : Statement}
    (item : backlog.readItem = (.ok statement, next)) :
    readOn read (.ok true, backlog) = (read next).map (statement :: ·) := by
  change (backlog.readItem.1.bind fun statement => (read backlog.readItem.2).map (statement :: ·)) = _
  rw [item]
  rfl

/-- Whether items are read one after the other, for as long as the tokens tell that one comes. -/
def Reads (told : List Token → Option Bool) (read : Backlog → Except SyntaxError (List Statement)) :
    Prop :=
  ∀ backlog : Backlog, read backlog = readOn read (backlog.answer (told backlog.tokens) false)

theorem reads_readAll : Reads (·.head?.map fun _ => true) readAll := by
  intro backlog
  rw [readAll]
  split
  · next ended =>
      rw [ended]
      rcases backlog with ⟨origin, tokens, _ | pending⟩ <;> rfl
  · next more =>
      rw [more]
      split
      · next failed => exact (readOn_of_failure readAll failed).symm
      · next item => exact (readOn_of_item readAll item).symm

theorem reads_readLeading : Reads SourceItem.begins readLeading := by
  intro backlog
  rw [readLeading]
  split
  · next ended =>
      rw [ended]
      rcases backlog with ⟨origin, tokens, _ | pending⟩ <;> rfl
  · next other => rw [other]; rfl
  · next comes =>
      rw [comes]
      split
      · next failed => exact (readOn_of_failure readLeading failed).symm
      · next item => exact (readOn_of_item readLeading item).symm

end Backlog

end ImportBlock
