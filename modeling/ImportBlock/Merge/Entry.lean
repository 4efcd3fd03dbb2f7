import ImportBlock.Forest
import ImportBlock.Text.Quoted

namespace ImportBlock

/-! ## Conflicts

The conflicts that imports of one block can be in. Each names what is imported, the values that
compete, and the fragments that these come from. -/

inductive Conflict
  /-- One path is renamed in different ways. -/
  | renames (path : String) (names : List String) (fragments : List Int)
  /-- Different paths are bound to one name. -/
  | bindings (name : String) (paths : List String) (fragments : List Int)
  /-- One import has different metadata. -/
  | metadata (path : String) (texts : List String) (fragments : List Int)
deriving DecidableEq, Repr

namespace Conflict

def listed (values : List String) : String := " and ".intercalate (values.map Text.quoted)

def origin : List Int → String
  | [] => ""
  | fragments => " (fragments " ++ ", ".intercalate (fragments.map toString) ++ ")"

def message : Conflict → String
  | .renames path names fragments =>
      "'" ++ path ++ "' is imported under conflicting aliases " ++ listed names ++
        origin fragments
  | .bindings name paths fragments =>
      "alias '" ++ name ++ "' is bound to both " ++ listed paths ++ origin fragments
  | .metadata path texts fragments =>
      "'" ++ path ++ "' is imported with differing attributes " ++ listed texts ++
        origin fragments

end Conflict

/-! ## Entries

Entries: the different imports of all fragments, each with the fragment that it first occurs
in. An import is a path with a rename; one import has one metadata. -/

structure Entry where
  leaf : Leaf
  fragment : Int
deriving DecidableEq, Repr

namespace Entry

/-- Whether two entries are the same import, whatever their metadata. -/
def matchesImport (left right : Entry) : Bool :=
  left.leaf.path = right.leaf.path && left.leaf.rename = right.leaf.rename

/-- The entries of a forest, one for each leaf, in canonical form. -/
def ofForest (forest : Forest) : List Entry :=
  forest.leaves.map fun leaf => ⟨leaf.canonical, forest.fragment⟩

def ordered (left right : String) : List String :=
  if left ≤ right then [left, right] else [right, left]

def metadataConflict (first second : Entry) : Conflict :=
  .metadata { first.leaf with metadata := {} }.text
    (ordered first.leaf.metadata.text second.leaf.metadata.text)
    [first.fragment, second.fragment]

/-- Adds an entry behind those that are there, unless its import is among them already. -/
def insert (entries : List Entry) (entry : Entry) : Except Conflict (List Entry) :=
  match entries.find? entry.matchesImport with
  | none => .ok (entries ++ [entry])
  | some existing =>
      if existing.leaf.metadata = entry.leaf.metadata then .ok entries
      else .error (metadataConflict existing entry)

def ofForests (forests : List Forest) : Except Conflict (List Entry) :=
  (forests.flatMap ofForest).foldlM insert []

/-! Conflicts are looked for in a fixed order of the entries. The imports of a module come before
those of its inner modules. The former are ordered by their last segments and their renames, the
latter by the names of the modules. -/

/-- An entry together with the part of its path that lies inside some module. -/
structure Placed where
  inner : Path
  entry : Entry

/-- The order of imports in one module. -/
def Placed.order : Placed → Placed → Ordering :=
  compareLex (compareOn fun placed => placed.inner.ranks)
    (compareOn fun placed => placed.entry.leaf.rename)

/-- Visits entries whose inner paths are at most `depth` segments long. -/
def visitTo : (depth : Nat) → List Placed → List Entry
  | 0, placed => placed.map (·.entry)
  | depth + 1, placed =>
      let here := placed.filter fun placed => placed.inner.length ≤ 1
      let deeper := placed.filter fun placed => 1 < placed.inner.length
      let modules := (gather (fun (placed : Placed) => placed.inner.take 1) deeper).mergeSort
        fun left right => (compare (Path.ranks left.1) (Path.ranks right.1)).isLE
      (here.mergeSort fun left right => (left.order right).isLE).map (·.entry) ++
        modules.flatMap fun (_, members) =>
          visitTo depth (members.map fun placed => { placed with inner := placed.inner.tail })

def visit (entries : List Entry) : List Entry :=
  visitTo (Tree.depth (entries.map (·.leaf))) (entries.map fun entry => ⟨entry.leaf.path, entry⟩)

/-! A rename binds a name, unless it is the underscore. -/

structure Binding where
  path : String
  name : String
  metadata : Metadata
  fragment : Int
deriving DecidableEq, Repr

def binding? (entry : Entry) : Option Binding :=
  match entry.leaf.rename with
  | none => none
  | some name =>
      if name = "_" then none
      else some ⟨entry.leaf.path.text, name, entry.leaf.metadata, entry.fragment⟩

/-- Whether a binding gives the path of another a different name in the same build. -/
def Binding.renamesOtherwise (binding other : Binding) : Bool :=
  other.path = binding.path && other.name ≠ binding.name &&
    binding.metadata.overlaps other.metadata

/-- Whether a binding gives the name of another to a different path in the same build. -/
def Binding.bindsOtherwise (binding other : Binding) : Bool :=
  other.name = binding.name && other.path ≠ binding.path &&
    binding.metadata.overlaps other.metadata

/-- The conflict of a binding with one of those before it. -/
def Binding.conflict? (earlier : List Binding) (binding : Binding) : Option Conflict :=
  match earlier.find? binding.renamesOtherwise with
  | some other =>
      some (.renames binding.path [other.name, binding.name] [other.fragment, binding.fragment])
  | none =>
      match earlier.find? binding.bindsOtherwise with
      | some other =>
          some (.bindings binding.name [other.path, binding.path]
            [other.fragment, binding.fragment])
      | none => none

/-- The conflict of the first binding that is in conflict with an earlier one. -/
def Binding.firstConflict? (earlier : List Binding) : List Binding → Option Conflict
  | [] => none
  | binding :: rest =>
      match binding.conflict? earlier with
      | some conflict => some conflict
      | none => firstConflict? (earlier ++ [binding]) rest

def bindingConflict? (entries : List Entry) : Option Conflict :=
  Binding.firstConflict? [] ((visit entries).filterMap binding?)

end Entry

end ImportBlock
