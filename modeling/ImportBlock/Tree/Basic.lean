import ImportBlock.Leaf

namespace ImportBlock

/-! Import trees: a leaf, or a group of trees that share a stem. The children of a group are an
unordered set. A list enumerates them, and `Tree.same` says when two trees are equal as nests of
sets. -/

inductive Tree
  | leaf (leaf : Leaf)
  | group (stem : Path) (children : List Tree)

namespace Tree

/-- Whether each row of a table has a mark, and each of its columns. The columns are those of a
list. -/
def fullyMarked {α : Type} (columns : List α) (table : List (List Bool)) : Bool :=
  table.all (·.contains true) &&
    (table.foldr (List.zipWith or) (columns.map fun _ => false)).all id

mutual
/-- Whether two trees are equal, the children of groups taken as sets. Two nodes are compared at
most once, however deep they lie. -/
def same : Tree → Tree → Bool
  | .leaf left, .leaf right => left == right
  | .group stem children, .group stem' children' =>
      stem == stem' && fullyMarked children' (comparison children children')
  | _, _ => false

/-- A row for each tree of the first list, a column for each of the second, and marks where the two
are equal. -/
def comparison : List Tree → List Tree → List (List Bool)
  | [], _ => []
  | tree :: rest, others => others.map (fun other => tree.same other) :: comparison rest others
end

/-- Whether two lists enumerate the same set of trees. -/
def sameSet (left right : List Tree) : Bool := fullyMarked right (comparison left right)

def distinct : List Tree → List Tree
  | [] => []
  | tree :: rest => tree :: (distinct rest).filter fun other => !tree.same other

def ofChildren (stem : Path) (children : List Tree) : Tree := .group stem (distinct children)

/-- The first segment, which decides the section of a tree. -/
def root? : Tree → Option Segment
  | .leaf item => item.path.head?
  | .group stem _ => stem.head?

mutual
def leaves : Tree → List Leaf
  | .leaf item => [item]
  | .group stem children => (allLeaves children).map (Leaf.under stem)

def allLeaves : List Tree → List Leaf
  | [] => []
  | tree :: rest => tree.leaves ++ allLeaves rest
end

def text : Tree → String
  | .leaf item => item.text
  | .group stem children =>
      stem.text ++ "::\x7b" ++ toString children.length ++ " items\x7d"

end Tree

end ImportBlock
