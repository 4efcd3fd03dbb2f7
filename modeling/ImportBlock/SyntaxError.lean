import ImportBlock.Value

namespace ImportBlock

/-! Everything that can be wrong with a use item, and how it is told. -/

/-- What may be missing where another token stands. -/
inductive Expected
  | semicolon
  | visibilityScope
  | closeParenthesis
  | path
  | pathSegment
  | groupEnd
  | renameTarget
deriving DecidableEq, Repr

namespace Expected

def text : Expected → String
  | .semicolon => "';'"
  | .visibilityScope => "visibility scope"
  | .closeParenthesis => "')'"
  | .path => "path"
  | .pathSegment => "path segment"
  | .groupEnd => "',' or '\x7d'"
  | .renameTarget => "alias after 'as'"

end Expected

/-- What may be wrong with the paths of a use tree. Here `before` is the path in front of the place,
empty at its beginning. -/
inductive PathFault
  | leadingGlob
  | badRename (name : String) (path : String)
  | foreign (value : Value)
  | emptySegment (before : String)
  | badIdentifier (word : String) (before : String)
  | selfOutsideGroup (before : String)
  | selfAlone
  | crateInside (before : String)
  | superAfter (before : String)
  | keywordAlone (word : String)

namespace PathFault

/-- The path in front of a place, or the keyword if there is none. -/
def place (before : String) : String := "'" ++ (if before = "" then "use" else before) ++ "'"

def message : PathFault → String
  | .leadingGlob => "a glob cannot be the first segment of a use path"
  | .badRename name path => "invalid alias " ++ Text.quoted name ++ " for '" ++ path ++ "'"
  | .foreign value => "unexpected syntax " ++ value.display
  | .emptySegment before => "empty segment after " ++ place before
  | .badIdentifier word before =>
      "invalid identifier " ++ Text.quoted word ++ " after " ++ place before
  | .selfOutsideGroup before =>
      "'self' after " ++ place before ++ " is only allowed inside braces"
  | .selfAlone => "'self' cannot be imported on its own"
  | .crateInside before =>
      "'crate' must be the first segment, found after " ++ place before
  | .superAfter before => "'super' cannot follow " ++ place before
  | .keywordAlone word => "'" ++ word ++ "' cannot be imported on its own"

end PathFault

inductive SyntaxFault
  | openComment
  | openAttribute
  | noItem
  | notUse
  | notTree
  /-- Here `found` is none at the end of the text. -/
  | missing (expected : Expected) (found : Option String)
  | unknownScope (word : String)
  | path (fault : PathFault)
  /-- A fault that a caller describes in words of its own. -/
  | reported (text : String)

namespace SyntaxFault

def message : SyntaxFault → String
  | .openComment => "unterminated block comment"
  | .openAttribute => "unterminated attribute"
  | .noItem => "expected a use item, found end of input"
  | .notUse => "expected 'use'"
  | .notTree => "expected identifier, '*' or '\x7b'"
  | .missing expected none => "expected " ++ expected.text ++ ", found end of input"
  | .missing expected (some found) =>
      "expected " ++ expected.text ++ ", found " ++ Text.quoted found
  | .unknownScope word => "invalid visibility scope " ++ Text.quoted word
  | .path fault => fault.message
  | .reported text => text

end SyntaxFault

/-- A fault with the fragment that it occurs in and the place there, as far as they are known. -/
structure SyntaxError where
  fault : SyntaxFault
  fragment : Option Int := none
  line : Option Int := none
  column : Option Int := none

namespace SyntaxError

def message (error : SyntaxError) : String := error.fault.message

/-- The message with the place of the error behind it. -/
def text (error : SyntaxError) : String :=
  let fragment := error.fragment.toList.map fun number => "fragment " ++ toString number
  let place := error.line.toList.map fun line =>
    "line " ++ toString line ++ ", column " ++
      match error.column with
      | none => "None"
      | some column => toString column
  match fragment ++ place with
  | [] => error.message
  | parts => error.message ++ " (" ++ ", ".intercalate parts ++ ")"

end SyntaxError

end ImportBlock
