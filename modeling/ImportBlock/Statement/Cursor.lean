import ImportBlock.Statement.ItemReader
import ImportBlock.Text.Lines

namespace ImportBlock

/-- Goes on from the answer of a call, unless it failed, in the state that the call left. -/
def after {ε σ α β : Type} (step : α → σ → Except ε β × σ) : Except ε α × σ → Except ε β × σ
  | (.error error, next) => (.error error, next)
  | (.ok answer, next) => step answer next

/-! A place in the tokens of a text, and reading on from it. A text is cut into tokens as far as it was
looked at, and tokens that were looked at but not read wait in a buffer. Tokens that were read stay read,
also when reading fails. The fault behind the last token is reported when a call runs into it; after that
the text counts as ended there. -/

/-- The text that tokens are read from. -/
structure Origin where
  source : List Char
  fragment : Option Int

namespace Origin

def errorAt (origin : Origin) (offset : Nat) (fault : SyntaxFault) : SyntaxError :=
  let position := Text.Position.ofOffset origin.source offset
  ⟨fault, origin.fragment, some position.line, some position.column⟩

def lexicalError (origin : Origin) (pending : TokenFault) : SyntaxError :=
  origin.errorAt pending.offset <|
    match pending.fault with
    | .openComment => .openComment
    | .openAttribute => .openAttribute

end Origin

structure Cursor extends Origin where
  /-- The tokens that were cut and not read. -/
  buffer : Array Token
  unread : Tokenizer

namespace Cursor

def ofText (text : String) (fragment : Option Int) : Cursor :=
  ⟨⟨text.toList, fragment⟩, #[], Tokenizer.ofText text.toList⟩

/-! ## The buffer -/

/-- Cuts tokens into the buffer, as many as are asked for if the text has them. -/
def fill (cursor : Cursor) : (count : Nat) → Except SyntaxError Unit × Cursor
  | 0 => (.ok (), cursor)
  | count + 1 =>
      match cursor.unread.next with
      | (.error fault, unread) => (.error (cursor.lexicalError fault), { cursor with unread })
      | (.ok none, unread) => (.ok (), { cursor with unread })
      | (.ok (some token), unread) =>
          fill { cursor with buffer := cursor.buffer.push token, unread } count

/-- The token that stands `offset` tokens behind the cursor, none if the text ends before. -/
def peek (cursor : Cursor) (offset : Nat) : Except SyntaxError (Option Token) × Cursor :=
  cursor.fill (offset + 1 - cursor.buffer.size) |> after fun _ next =>
    (.ok next.buffer[offset]?, next)

def advance (cursor : Cursor) : Cursor := { cursor with buffer := cursor.buffer.extract 1 }

def size (cursor : Cursor) : Nat := cursor.buffer.size + cursor.unread.rest.length

theorem size_fill_le (cursor : Cursor) (count : Nat) : (cursor.fill count).2.size ≤ cursor.size := by
  fun_induction fill cursor count with
  | case1 => exact Nat.le_refl _
  | case2 cursor _ _ unread equal | case3 cursor _ unread equal =>
      have shorter := cursor.unread.length_next_le
      rw [equal] at shorter
      exact Nat.add_le_add_left shorter _
  | case4 cursor _ token unread equal induction =>
      have shorter := Tokenizer.length_next_lt equal
      simp only [size, Array.size_push] at induction ⊢
      omega

theorem size_after_le {α β : Type} {step : α → Cursor → Except SyntaxError β × Cursor} {bound : Nat}
    (each : ∀ answer next, next.size ≤ bound → (step answer next).2.size ≤ bound)
    {result : Except SyntaxError α × Cursor} (first : result.2.size ≤ bound) :
    (after step result).2.size ≤ bound := by
  rcases result with ⟨error | answer, next⟩
  · exact first
  · exact each answer next first

theorem size_peek_le (cursor : Cursor) (offset : Nat) :
    (cursor.peek offset).2.size ≤ cursor.size :=
  size_after_le (fun _ _ bounded => bounded) (cursor.size_fill_le _)

variable {cursor next : Cursor}

theorem lt_size_of_peek {offset : Nat} {token : Token}
    (found : cursor.peek offset = (.ok (some token), next)) : offset < next.buffer.size := by
  unfold peek after at found
  split at found
  · cases found
  · rw [Prod.mk.injEq, Except.ok.injEq] at found
    rcases found with ⟨stands, rfl⟩
    exact (Array.getElem?_eq_some_iff.mp stands).1

theorem size_sub_lt_of_peek {offset : Nat} {token : Token}
    (found : cursor.peek offset = (.ok (some token), next)) :
    next.size - (offset + 1) < cursor.size - offset := by
  have inside := lt_size_of_peek found
  have shorter := cursor.size_peek_le offset
  rw [found] at shorter
  simp only [size] at shorter ⊢
  omega

theorem size_advance_lt_of_peek {token : Token} (found : cursor.peek 0 = (.ok (some token), next)) :
    next.advance.size < cursor.size := by
  have inside := lt_size_of_peek found
  have shorter := cursor.size_peek_le 0
  rw [found] at shorter
  simp only [size, advance, Array.size_extract, Nat.min_self] at shorter ⊢
  omega

/-- A look at a token further on. Where there is one, fewer tokens are left to look at behind it. -/
def look (cursor : Cursor) (offset : Nat) :
    { looked : Except SyntaxError (Option Token) × Cursor //
      ∀ token next, looked = (.ok (some token), next) →
        next.size - (offset + 1) < cursor.size - offset } :=
  ⟨cursor.peek offset, fun _ _ => size_sub_lt_of_peek⟩

/-- A look at the next token. Where there is one, reading it leaves fewer tokens. -/
def front (cursor : Cursor) :
    { looked : Except SyntaxError (Option Token) × Cursor //
      ∀ token next, looked = (.ok (some token), next) → next.advance.size < cursor.size } :=
  ⟨cursor.peek 0, fun _ _ => size_advance_lt_of_peek⟩

/-! ## Looking ahead -/

def atEnd (cursor : Cursor) : Except SyntaxError Bool × Cursor :=
  cursor.peek 0 |> after fun token next => (.ok token.isNone, next)

/-- The first token from `offset` on that passes a test, and where it stands; none if no token does. -/
def seek (test : Token → Bool) (offset : Nat) (cursor : Cursor) :
    Except SyntaxError (Option (Nat × Token)) × Cursor :=
  match cursor.look offset with
  | ⟨(.error error, next), _⟩ => (.error error, next)
  | ⟨(.ok none, next), _⟩ => (.ok none, next)
  | ⟨(.ok (some token), next), _fewer⟩ =>
      if test token then (.ok (some (offset, token)), next) else seek test (offset + 1) next
termination_by cursor.size - offset
decreasing_by exact _fewer _ _ rfl

def standsUse (cursor : Cursor) (offset : Nat) : Except SyntaxError Bool × Cursor :=
  cursor.peek offset |> after fun token next => (.ok (token.any (·.isWord "use")), next)

/-- Whether the word `use` follows a `pub`, behind the scope if there is one. -/
def goesOn (cursor : Cursor) (offset : Nat) : Except SyntaxError Bool × Cursor :=
  cursor.peek offset |> after fun token next =>
    if token.any (·.kind = .openParenthesis) then
      next.seek (·.kind = .closeParenthesis) offset |> after fun closing next =>
        match closing with
        | none => (.ok false, next)
        | some (place, _) => next.standsUse (place + 1)
    else next.standsUse offset

/-- Whether a use item stands next: attributes, a visibility and the word `use`. -/
def startsItem (cursor : Cursor) : Except SyntaxError Bool × Cursor :=
  cursor.seek (·.kind ≠ .attribute) 0 |> after fun first next =>
    match first with
    | none => (.ok false, next)
    | some (place, token) =>
        if token.isWord "pub" then next.goesOn (place + 1) else next.standsUse place

theorem size_seek_le (test : Token → Bool) (offset : Nat) (cursor : Cursor) :
    (cursor.seek test offset).2.size ≤ cursor.size := by
  have bounded : ∀ {offset : Nat} {cursor : Cursor} {looked}, cursor.look offset = looked →
      looked.1.2.size ≤ cursor.size := fun equal => equal ▸ size_peek_le _ _
  fun_induction seek test offset cursor with
  | case1 _ _ _ _ _ equal | case2 _ _ _ _ equal | case3 _ _ _ _ _ equal => exact bounded equal
  | case4 _ _ _ _ _ equal _ induction => exact Nat.le_trans induction (bounded equal)

theorem size_standsUse_le (cursor : Cursor) (offset : Nat) :
    (cursor.standsUse offset).2.size ≤ cursor.size :=
  size_after_le (fun _ _ bounded => bounded) (cursor.size_peek_le offset)

theorem size_goesOn_le (cursor : Cursor) (offset : Nat) :
    (cursor.goesOn offset).2.size ≤ cursor.size := by
  refine size_after_le (fun token next bounded => ?_) (cursor.size_peek_le offset)
  split
  · refine size_after_le (fun closing last bounded => ?_)
      (Nat.le_trans (next.size_seek_le _ offset) bounded)
    split
    · exact bounded
    · exact Nat.le_trans (last.size_standsUse_le _) bounded
  · exact Nat.le_trans (next.size_standsUse_le offset) bounded

theorem size_startsItem_le (cursor : Cursor) : cursor.startsItem.2.size ≤ cursor.size := by
  refine size_after_le (fun first next bounded => ?_) (cursor.size_seek_le _ 0)
  split
  · exact bounded
  · split
    · exact Nat.le_trans (next.size_goesOn_le _) bounded
    · exact Nat.le_trans (next.size_standsUse_le _) bounded

/-! ## Reading -/

def skipInnerAttributes (cursor : Cursor) : Except SyntaxError Unit × Cursor :=
  match cursor.front with
  | ⟨(.error error, next), _⟩ => (.error error, next)
  | ⟨(.ok none, next), _⟩ => (.ok (), next)
  | ⟨(.ok (some token), next), _fewer⟩ =>
      if token.kind = .innerAttribute then skipInnerAttributes next.advance else (.ok (), next)
termination_by cursor.size
decreasing_by exact _fewer _ _ rfl

def readFrom (state : ItemState) (cursor : Cursor) : Except SyntaxError SourceItem × Cursor :=
  match cursor.front with
  | ⟨(.error error, next), _⟩ => (.error error, next)
  | ⟨(.ok none, next), _⟩ => (.error (next.errorAt next.source.length state.faultAtEnd), next)
  | ⟨(.ok (some token), next), _fewer⟩ =>
      match state.take token with
      | .on state => readFrom state next.advance
      | .complete item => (.ok item, next.advance)
      | .refused fault =>
          (.error (next.errorAt token.start fault),
            if state.swallows token then next.advance else next)
termination_by cursor.size
decreasing_by exact _fewer _ _ rfl

def readItem (cursor : Cursor) : Except SyntaxError Statement × Cursor :=
  cursor.readFrom .initial |> after fun item next =>
    (.ok ⟨item.tree, item.metadata, cursor.fragment, some item.span⟩, next)

theorem size_readFrom_lt {state : ItemState} {item : SourceItem}
    (success : cursor.readFrom state = (.ok item, next)) : next.size < cursor.size := by
  fun_induction readFrom state cursor with
  | case1 | case2 => cases success
  | case3 _ _ _ _ fewer _ _ _ induction => exact Nat.lt_trans (induction success) (fewer _ _ rfl)
  | case4 _ _ _ _ fewer =>
      cases success
      exact fewer _ _ rfl
  | case5 => cases success

theorem size_readItem_lt {statement : Statement}
    (success : cursor.readItem = (.ok statement, next)) : next.size < cursor.size := by
  unfold readItem at success
  rcases read : cursor.readFrom .initial with ⟨error | item, behind⟩
  · rw [read] at success
    cases success
  · rw [read] at success
    cases success
    exact size_readFrom_lt read

/-- Reads an item. Where there is one, fewer tokens are left behind it. -/
def pull (cursor : Cursor) :
    { read : Except SyntaxError Statement × Cursor //
      ∀ statement next, read = (.ok statement, next) → next.size < cursor.size } :=
  ⟨cursor.readItem, fun _ _ => size_readItem_lt⟩

/-- Reads use items for as long as a look ahead says that one comes. -/
def readWhile
    (comes : (cursor : Cursor) →
      { looked : Except SyntaxError Bool × Cursor // looked.2.size ≤ cursor.size })
    (cursor : Cursor) : Except SyntaxError (List Statement) :=
  match comes cursor with
  | ⟨(.error error, _), _⟩ => .error error
  | ⟨(.ok false, _), _⟩ => .ok []
  | ⟨(.ok true, here), _bounded⟩ =>
      match here.pull with
      | ⟨(.error error, _), _⟩ => .error error
      | ⟨(.ok statement, next), _fewer⟩ => (readWhile comes next).map (statement :: ·)
termination_by cursor.size
decreasing_by exact Nat.lt_of_lt_of_le (_fewer _ _ rfl) _bounded

def goesFurther (cursor : Cursor) : Except SyntaxError Bool × Cursor :=
  cursor.atEnd |> after fun ended next => (.ok !ended, next)

theorem size_goesFurther_le (cursor : Cursor) : cursor.goesFurther.2.size ≤ cursor.size :=
  size_after_le (fun _ _ bounded => bounded)
    (size_after_le (fun _ _ bounded => bounded) (cursor.size_peek_le 0))

def readAll : Cursor → Except SyntaxError (List Statement) :=
  readWhile fun cursor => ⟨cursor.goesFurther, cursor.size_goesFurther_le⟩

/-- Reads use items for as long as one stands next. -/
def readLeading : Cursor → Except SyntaxError (List Statement) :=
  readWhile fun cursor => ⟨cursor.startsItem, cursor.size_startsItem_le⟩

/-! ## What is left -/

/-- The tokens that are not read yet, those in the buffer first. -/
def tokens (cursor : Cursor) : List Token := cursor.buffer.toList ++ cursor.unread.tokens

def pending (cursor : Cursor) : Option TokenFault := cursor.unread.pending

end Cursor

namespace Statement

/-- The use items of a text that holds nothing else but comments. -/
def parse (text : String) (fragment : Option Int := some 0) :
    Except SyntaxError (List Statement) :=
  (Cursor.ofText text fragment).readAll

/-- The use items at the top of a source text, behind its comments and inner attributes. The first
item that is no use item ends them. -/
def scan (text : String) : Except SyntaxError (List Statement) :=
  let (skipped, cursor) := (Cursor.ofText text (some 0)).skipInnerAttributes
  skipped.bind fun _ => cursor.readLeading

end Statement

end ImportBlock
