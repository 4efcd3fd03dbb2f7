import ImportBlock.Tree.Basic

namespace ImportBlock

/-! The order of trees: by path, a leaf before a group of the same path, leaves by rename and
metadata, groups by their children in this same order. -/

inductive SortKey
  | leaf (path : List Segment.Rank) (rename : Option String) (metadata : Metadata)
  | group (stem : List Segment.Rank) (children : List SortKey)

namespace SortKey

mutual
def compare : SortKey → SortKey → Ordering
  | .leaf path rename metadata, .leaf path' rename' metadata' =>
      (Ord.compare path path').then
        ((Ord.compare rename rename').then (Ord.compare metadata metadata'))
  | .leaf path _ _, .group stem _ => (Ord.compare path stem).then .lt
  | .group stem _, .leaf path _ _ => (Ord.compare stem path).then .gt
  | .group stem children, .group stem' children' =>
      (Ord.compare stem stem').then (compareAll children children')

/-- Lists of keys are compared at the first place where they differ; a start of a list comes
before the list. -/
def compareAll : List SortKey → List SortKey → Ordering
  | [], [] => .eq
  | [], _ :: _ => .lt
  | _ :: _, [] => .gt
  | key :: rest, key' :: rest' => (compare key key').then (compareAll rest rest')
end

def le (left right : SortKey) : Bool := (compare left right).isLE

end SortKey

namespace Tree

mutual
def sortKey : Tree → SortKey
  | .leaf item => .leaf item.path.ranks item.rename item.metadata
  | .group stem children => .group stem.ranks ((sortKeys children).mergeSort SortKey.le)

def sortKeys : List Tree → List SortKey
  | [] => []
  | tree :: rest => tree.sortKey :: sortKeys rest
end

/-- Trees in their order; trees of equal keys keep their places. -/
def sorted (trees : List Tree) : List Tree :=
  trees.mergeSort fun left right => left.sortKey.le right.sortKey

end Tree

namespace Leaf

def sortKey (leaf : Leaf) : SortKey := (Tree.leaf leaf).sortKey

def sorted (leaves : List Leaf) : List Leaf :=
  leaves.mergeSort fun left right => left.sortKey.le right.sortKey

end Leaf

end ImportBlock
