import ImportBlock.Statement.Syntax
import ImportBlock.SyntaxError
import ImportBlock.Tree.Factor
import ImportBlock.Tree.Order

namespace ImportBlock

/-! Expanding a statement: its use tree becomes the leaves that it spells, each with its full path,
and these are factored into trees again. On the way the rules of paths are checked. -/

def isRenameTarget (word : String) : Bool :=
  Identifier.accepts word.toList && (Segment.ofText word).kind = .name

/-- The segment that a word gives behind the path `before`. `last` says that no further segment
follows, `inGroup` that the word stands directly inside braces. -/
def Segment.check (before : Path) (last inGroup : Bool) (word : String) :
    Except PathFault Segment :=
  let segment := ofText word
  let place := before.text
  if word = "" then .error (.emptySegment place)
  else match segment.kind with
    | .name => if segment.isValid then .ok segment else .error (.badIdentifier word place)
    | .self =>
        if before ≠ [] && !(last && inGroup) then .error (.selfOutsideGroup place)
        else if before = [] && last then .error .selfAlone
        else .ok segment
    | .crate =>
        if before ≠ [] then .error (.crateInside place)
        else if last then .error (.keywordAlone word)
        else .ok segment
    | .super =>
        if !before.all fun segment => segment.kind = .self || segment.kind = .super then
          .error (.superAfter place)
        else if last then .error (.keywordAlone word)
        else .ok segment
    | .glob => if last then .error (.keywordAlone word) else .ok segment

namespace UseTree

mutual
/-- The leaves that a use tree spells behind the path `before`, in the order of the text. -/
def leaves (metadata : Metadata) (before : Path) (inGroup : Bool) :
    UseTree → Except PathFault (List Leaf)
  | .group items => allLeaves metadata before items
  | .path word rest => do
      let segment ← Segment.check before false inGroup word
      leaves metadata (before ++ [segment]) false rest
  | .glob =>
      if before = [] then .error .leadingGlob
      else .ok [⟨before ++ [.glob], none, metadata⟩]
  | .name word => do
      let segment ← Segment.check before true inGroup word
      return [⟨before ++ [segment], none, metadata⟩]
  | .rename word target => do
      let segment ← Segment.check before true inGroup word
      if target = "_" || isRenameTarget target then
        return [⟨before ++ [segment], some target, metadata⟩]
      else .error (.badRename target (Path.text (before ++ [segment])))
  | .foreign value => .error (.foreign value)

def allLeaves (metadata : Metadata) (before : Path) :
    List UseTree → Except PathFault (List Leaf)
  | [] => .ok []
  | tree :: rest => do
      let first ← leaves metadata before true tree
      let others ← allLeaves metadata before rest
      return first ++ others
end

end UseTree

namespace Statement

def leaves (statement : Statement) : Except SyntaxError (List Leaf) :=
  match statement.tree.leaves statement.metadata [] false with
  | .ok leaves => .ok leaves
  | .error fault => .error { fault := .path fault, fragment := statement.fragment }

/-- The trees of a statement, in their order. -/
def expand (statement : Statement) : Except SyntaxError (List Tree) := do
  let leaves ← statement.leaves
  return Tree.sorted (Tree.factor leaves)

end Statement

end ImportBlock
