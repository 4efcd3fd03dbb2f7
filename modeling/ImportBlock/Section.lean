import ImportBlock.Config.Basic
import ImportBlock.Granularity
import ImportBlock.Merge.MergedSet
import ImportBlock.Tree.Printer

namespace ImportBlock

/-! ## Use items

Use items to be written: a tree with the metadata that all its leaves share. -/

structure UseItem where
  /-- Its leaves carry no metadata of their own. -/
  tree : Tree
  metadata : Metadata

namespace UseItem

def order (left right : UseItem) : Ordering :=
  (left.tree.sortKey.compare right.tree.sortKey).then (compare left.metadata right.metadata)

def sorted (items : List UseItem) : List UseItem :=
  items.mergeSort fun left right => (left.order right).isLE

def text (item : UseItem) : String :=
  let visibility := if item.metadata.visibility = "" then "" else item.metadata.visibility ++ " "
  let colons := if item.metadata.leadingColon then "::" else ""
  let line := visibility ++ "use " ++ colons ++ item.tree.source ++ ";"
  "\n".intercalate (item.metadata.attributes.map Metadata.bracketed ++ [line])

end UseItem

/-- The use items of a merged set, in their order. Imports of different metadata never share an
item. -/
def MergedSet.items (merged : MergedSet) (granularity : Granularity) : List UseItem :=
  let groups := gather (fun (leaf : Leaf) => leaf.metadata) merged.leaves
  UseItem.sorted <| groups.flatMap fun (metadata, members) =>
    let plain := members.map fun leaf => { leaf with metadata := {} }
    (granularity.trees plain).map fun tree => ⟨tree, metadata⟩

/-! ## Sections

The sections of an import block, and the block itself. -/

inductive Section
  | core
  | external
  | own
deriving DecidableEq, Repr

namespace Section

def all : List Section := [.core, .external, .own]

def name : Section → String
  | .core => "core"
  | .external => "external"
  | .own => "local"

/-- The section of the imports below a first segment. The names of the program's own crates count
for segments of every kind, core names for names only. -/
def ofRoot (coreNames ownNames : List String) (root : Segment) : Section :=
  if root.kind matches .self | .super | .crate then .own
  else if ownNames.contains root.text then .own
  else if root.kind = .name && coreNames.contains root.text then .core
  else .external

/-- The section of a tree. A tree without a first segment counts as external. -/
def ofTree (coreNames ownNames : List String) (tree : Tree) : Section :=
  tree.root?.elim .external (ofRoot coreNames ownNames)

end Section

/-- An import block: the texts of its use items, by section. -/
structure Sections where
  core : List String := []
  external : List String := []
  own : List String := []
deriving DecidableEq, Repr

namespace Sections

def get (sections : Sections) : Section → List String
  | .core => sections.core
  | .external => sections.external
  | .own => sections.own

def isEmpty (sections : Sections) : Bool := Section.all.all fun name => (sections.get name).isEmpty

/-- The sections that are not empty, each as one text. -/
def blocks (sections : Sections) : List String :=
  ((Section.all.map sections.get).filter fun texts => !texts.isEmpty).map "\n".intercalate

def text (sections : Sections) : String := "\n\n".intercalate sections.blocks

def ofItems (config : Config) (items : List UseItem) : Sections :=
  let texts (name : Section) : List String :=
    (items.filter fun item =>
      Section.ofTree config.coreNames config.ownNames item.tree = name).map (·.text)
  ⟨texts .core, texts .external, texts .own⟩

end Sections

def MergedSet.sections (merged : MergedSet) (config : Config) : Sections :=
  .ofItems config (merged.items config.granularity)

end ImportBlock
