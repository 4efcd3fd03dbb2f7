import ImportBlock.SyntaxError
import ImportBlock.Token
import ImportBlock.Statement.Syntax

namespace ImportBlock

/-! Reading a use tree one token at a time. The state says what has been read of the tree, and so
what may come next. -/

/-- What is open around the tree that is being read. -/
inductive OpenTree
  /-- A path up to its last `::`. -/
  | path (word : String)
  /-- A group with its items so far. -/
  | group (items : List UseTree)

inductive TreeState
  /-- A tree must begin. -/
  | start (outer : List OpenTree)
  /-- Behind the opening brace or a comma of a group. -/
  | inGroup (items : List UseTree) (outer : List OpenTree)
  /-- Behind a word, which may turn out to be a path, a rename or a name. -/
  | afterWord (word : String) (outer : List OpenTree)
  /-- Behind the `as` of a rename. -/
  | renaming (word : String) (outer : List OpenTree)
  /-- Behind an item of a group. -/
  | afterItem (items : List UseTree) (outer : List OpenTree)
  | complete (tree : UseTree)

namespace TreeState

def close (tree : UseTree) : List OpenTree → TreeState
  | [] => .complete tree
  | .path word :: outer => close (.path word tree) outer
  | .group items :: outer => .afterItem (items ++ [tree]) outer

/-- The state once it is clear that `next` follows: a word that neither `::` nor `as` follows is a
name. -/
def settle (state : TreeState) (next : Option Token) : TreeState :=
  match state with
  | .afterWord word outer =>
      if next.any fun token => token.kind = .pathSeparator || token.isWord "as" then state
      else close (.name word) outer
  | _ => state

def begin (outer : List OpenTree) (token : Token) : Option TreeState :=
  match token.kind with
  | .star => some (close .glob outer)
  | .openBrace => some (.inGroup [] outer)
  | .identifier => some (.afterWord token.text outer)
  | _ => none

/-- Takes a token in a settled state, if the token may stand there. -/
def take (token : Token) : TreeState → Option TreeState
  | .start outer => begin outer token
  | .inGroup items outer =>
      if token.kind = .closeBrace then some (close (.group items) outer)
      else begin (.group items :: outer) token
  | .afterWord word outer =>
      if token.kind = .pathSeparator then some (.start (.path word :: outer))
      else some (.renaming word outer)
  | .renaming word outer =>
      if token.kind = .identifier then some (close (.rename word token.text) outer) else none
  | .afterItem items outer =>
      match token.kind with
      | .comma => some (.inGroup items outer)
      | .closeBrace => some (close (.group items) outer)
      | _ => none
  | .complete _ => none

/-- What is wrong if a token that cannot be taken, or the end of the text, follows a settled
state. -/
def fault (next : Option Token) : TreeState → SyntaxFault
  | .start _ | .inGroup _ _ => .notTree
  | .renaming _ _ => .missing .renameTarget (next.map (·.text))
  | .afterItem _ _ => .missing .groupEnd (next.map (·.text))
  | .afterWord _ _ | .complete _ => .missing .semicolon (next.map (·.text))

end TreeState

end ImportBlock
