import ImportBlock.Statement.Syntax
import ImportBlock.Statement.TreeReader

namespace ImportBlock

/-! Reading a use item: attributes, a visibility, the word `use`, an optional `::`, a tree and a
semicolon. -/

/-- A use item and where it stands. -/
structure SourceItem where
  tree : UseTree
  metadata : Metadata
  span : Span

inductive ItemState
  /-- Behind the attributes read so far. `first` is where the item begins, once that is known. -/
  | opening (first : Option Nat) (read : List String)
  /-- Behind `pub`: a scope, or the word `use`. -/
  | afterPub (first : Nat) (attributes : List String)
  /-- Behind `pub (`. -/
  | inScope (first : Nat) (attributes : List String)
  /-- Behind a scope that is one word. -/
  | scopeEnd (first : Nat) (attributes : List String) (word : String)
  /-- Behind the `in` of a scope, or a `::` of its path. -/
  | scopePath (first : Nat) (attributes : List String) (segments : List String)
  /-- Behind a segment of the path of a scope. -/
  | scopeSegment (first : Nat) (attributes : List String) (segments : List String)
  /-- The word `use` must follow. -/
  | keyword (first : Nat) (metadata : Metadata)
  /-- Behind `use`: a tree, which a `::` may precede. -/
  | afterUse (first : Nat) (metadata : Metadata)
  | inTree (first : Nat) (metadata : Metadata) (state : TreeState)

/-- What taking a token leads to. -/
inductive ItemStep
  | on (state : ItemState)
  | complete (item : SourceItem)
  | refused (fault : SyntaxFault)

namespace ItemState

def initial : ItemState := .opening none []

/-- The word `use`, or else a fault. -/
def takeUse (first : Nat) (metadata : Metadata) (token : Token) : ItemStep :=
  if token.isWord "use" then .on (.afterUse first metadata) else .refused .notUse

def takeTree (first : Nat) (metadata : Metadata) (state : TreeState) (token : Token) : ItemStep :=
  match state.settle (some token), token.kind with
  | .complete tree, .semicolon => .complete ⟨tree, metadata, ⟨first, token.stop⟩⟩
  | settled, _ =>
      match settled.take token with
      | some state => .on (.inTree first metadata state)
      | none => .refused (settled.fault (some token))

def missing (expected : Expected) (token : Token) : ItemStep :=
  .refused (.missing expected (some token.text))

def take (token : Token) : ItemState → ItemStep
  | .opening first read =>
      let start := first.getD token.start
      if token.kind = .attribute then .on (.opening (some start) (read ++ [token.text]))
      else if token.isWord "pub" then .on (.afterPub start read)
      else takeUse start { attributes := read } token
  | .afterPub first attributes =>
      if token.kind = .openParenthesis then .on (.inScope first attributes)
      else takeUse first { visibility := "pub", attributes } token
  | .inScope first attributes =>
      if token.kind = .identifier then
        if Identifier.isPathKeyword token.text then .on (.scopeEnd first attributes token.text)
        else if token.text = "in" then .on (.scopePath first attributes [])
        else .refused (.unknownScope token.text)
      else missing .visibilityScope token
  | .scopeEnd first attributes word =>
      if token.kind = .closeParenthesis then
        .on (.keyword first { visibility := "pub(" ++ word ++ ")", attributes })
      else missing .closeParenthesis token
  | .scopePath first attributes segments =>
      if token.kind = .identifier then
        .on (.scopeSegment first attributes (segments ++ [token.text]))
      else missing (if segments = [] then .path else .pathSegment) token
  | .scopeSegment first attributes segments =>
      if token.kind = .pathSeparator then .on (.scopePath first attributes segments)
      else if token.kind = .closeParenthesis then
        let visibility := "pub(in " ++ "::".intercalate segments ++ ")"
        .on (.keyword first { visibility, attributes })
      else missing .closeParenthesis token
  | .keyword first metadata => takeUse first metadata token
  | .afterUse first metadata =>
      if token.kind = .pathSeparator then
        .on (.inTree first { metadata with leadingColon := true } (.start []))
      else takeTree first metadata (.start []) token
  | .inTree first metadata state => takeTree first metadata state token

/-- What is wrong if the text ends in a state. -/
def faultAtEnd : ItemState → SyntaxFault
  | .opening none _ => .noItem
  | .opening (some _) _ | .afterPub _ _ | .keyword _ _ => .notUse
  | .inScope _ _ => .missing .visibilityScope none
  | .scopeEnd _ _ _ | .scopeSegment _ _ _ => .missing .closeParenthesis none
  | .scopePath _ _ segments => .missing (if segments = [] then .path else .pathSegment) none
  | .afterUse _ _ => .notTree
  | .inTree _ _ state => (state.settle none).fault none

/-- Whether a refused token counts as read: a word in place of a scope does. -/
def swallows (state : ItemState) (token : Token) : Bool :=
  match state with
  | .inScope _ _ => token.kind = .identifier
  | _ => false

end ItemState

end ImportBlock
