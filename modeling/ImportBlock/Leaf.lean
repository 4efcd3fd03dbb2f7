import ImportBlock.Metadata
import ImportBlock.Segment

namespace ImportBlock

/-! One imported item. -/

structure Leaf where
  /-- Relative to the stems of the groups around the leaf. -/
  path : Path
  /-- The name that the item is bound to, where it differs from the last segment. -/
  rename : Option String := none
  metadata : Metadata := {}
deriving DecidableEq, Repr

namespace Leaf

def text (leaf : Leaf) : String :=
  match leaf.rename with
  | none => leaf.path.text
  | some name => leaf.path.text ++ " as " ++ name

def isGlob (leaf : Leaf) : Bool := leaf.path.getLast?.any (·.isGlob)

/-- Whether the leaf is one bare name, the kind of leaf that a glob beside it makes redundant. -/
def isPlain (leaf : Leaf) : Bool :=
  match leaf.path with
  | [segment] => segment.kind = .name && leaf.rename.isNone
  | _ => false

/-- A path without a `self` that stands last, directly after a name. -/
def dropSelf : Path → Path
  | [] => []
  | [segment] => [segment]
  | [segment, last] =>
      if segment.kind = .name && last.kind = .self then [segment] else [segment, last]
  | segment :: rest => segment :: dropSelf rest

/-- The same import without a redundant `self`: `a::{self}` imports what `a` does. After `self`,
`super` and `crate` the marker stays, since these cannot be imported bare. -/
def canonical (leaf : Leaf) : Leaf := { leaf with path := dropSelf leaf.path }

def under (stem : Path) (leaf : Leaf) : Leaf := { leaf with path := stem ++ leaf.path }

end Leaf

end ImportBlock
