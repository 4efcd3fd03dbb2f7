import ImportBlock.Tree.Factor
import ImportBlock.Value

namespace ImportBlock

/-! How the imports of a block are spread over use items. -/

inductive Granularity
  /-- One tree for each first segment. -/
  | crate
  /-- One group for each module. -/
  | module
  /-- One item for each import. -/
  | item
deriving DecidableEq, Repr

namespace Granularity

def name : Granularity → String
  | .crate => "crate"
  | .module => "module"
  | .item => "item"

def all : List Granularity := [.crate, .module, .item]

def ofValue? : Value → Option Granularity
  | .string name => all.find? (·.name == name)
  | _ => none

def refusal (value : Value) : String := value.display ++ " is not a valid Granularity"

def moduleTrees (parent : Path) (members : List Leaf) : List Tree :=
  if parent = [] || members.length = 1 then members.map .leaf
  else
    let children := members.map fun leaf => { leaf with path := leaf.path.drop parent.length }
    [.ofChildren parent (children.map .leaf)]

def trees (granularity : Granularity) (leaves : List Leaf) : List Tree :=
  match granularity with
  | .crate => Tree.factor leaves
  | .module =>
      (gather (fun (leaf : Leaf) => leaf.path.dropLast) leaves).flatMap fun (parent, members) =>
        moduleTrees parent members
  | .item => leaves.map .leaf

end Granularity

end ImportBlock
