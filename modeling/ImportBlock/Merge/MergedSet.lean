import ImportBlock.Merge.Entry

namespace ImportBlock

namespace Leaf

/-! ## Redundant leaves

Leaves that others make redundant. Only leaves without a rename are, and only by leaves with
the same metadata. -/

/-- Whether `other` imports the same path and binds it to a name of its own. -/
def isRenamedBy (leaf other : Leaf) : Bool :=
  leaf.rename = none && other.path = leaf.path && other.metadata = leaf.metadata &&
    other.rename.any (· ≠ "_")

/-- Whether `leaf` is a name that the glob `other` beside it brings in. -/
def isCoveredBy (leaf other : Leaf) : Bool :=
  leaf.rename = none && leaf.path.getLast?.any (·.kind = .name) && other.isGlob &&
    other.path.dropLast = leaf.path.dropLast && other.metadata = leaf.metadata

/-- The leaves that no other makes redundant. Whether a renamed import makes the plain one redundant
is the caller's choice. What globs cover goes in a second pass, over what the first one left. -/
def absorb (byRename : Bool) (leaves : List Leaf) : List Leaf :=
  let kept :=
    if byRename then leaves.filter fun leaf => !leaves.any leaf.isRenamedBy else leaves
  kept.filter fun leaf => !kept.any leaf.isCoveredBy

end Leaf

/-! ## Merging -/

structure MergedSet where
  /-- The trees, as an enumeration of a set. -/
  roots : List Tree

namespace MergedSet

def empty : MergedSet := ⟨[]⟩

def ofRoots (roots : List Tree) : MergedSet := ⟨Tree.distinct roots⟩

def merge (forests : List Forest) (absorbByRename : Bool := true) :
    Except Conflict MergedSet := do
  let entries ← Entry.ofForests forests
  match Entry.bindingConflict? entries with
  | some conflict => .error conflict
  | none => .ok ⟨Tree.factor (Leaf.absorb absorbByRename (entries.map (·.leaf)))⟩

def size (merged : MergedSet) : Nat := merged.roots.length

def sorted (merged : MergedSet) : List Tree := Tree.sorted merged.roots

def leaves (merged : MergedSet) : List Leaf := Leaf.sorted (Tree.allLeaves merged.roots)

/-- The trees by their first segments, these in the order in which they first occur. -/
def byRoot (merged : MergedSet) : List (Option Segment × List Tree) :=
  gather Tree.root? merged.sorted

/-- The merged imports as one more fragment. -/
def toForest (merged : MergedSet) (fragment : Int := 0) : Forest := ⟨fragment, merged.sorted⟩

def same (left right : MergedSet) : Bool := Tree.sameSet left.roots right.roots

end MergedSet

end ImportBlock
