import ImportBlock.Tree.Order

namespace ImportBlock

/-! Trees as they are written in a use item. -/

inductive PrintFault
  /-- A leaf has no segment of its own that it could end in. -/
  | noSegment
deriving DecidableEq, Repr

def PrintFault.message : PrintFault → String
  | .noSegment => "not enough values to unpack (expected at least 1, got 0)"

/-- The path and the rename of a leaf. After other segments a `self` needs braces around it. -/
def Leaf.source (leaf : Leaf) : String :=
  let renamed (last : Segment) : String :=
    match leaf.rename with
    | none => last.text
    | some name => last.text ++ " as " ++ name
  match leaf.path.getLast? with
  | none => ""
  | some last =>
      match leaf.path.dropLast with
      | [] => renamed last
      | parents =>
          if last.kind = .self then
            Path.text parents ++ "::\x7b" ++ renamed last ++ "\x7d"
          else Path.text parents ++ "::" ++ renamed last

def Leaf.render (leaf : Leaf) : Except PrintFault String :=
  if leaf.path = [] then .error .noSegment else .ok leaf.source

namespace Tree

/-- Items in the order of the keys they are given with. -/
def inKeyOrder {α : Type} (items : List (SortKey × α)) : List α :=
  (items.mergeSort fun left right => left.1.le right.1).map (·.2)

mutual
/-- The text of a tree that can be written, the children of its groups in their order. -/
def source : Tree → String
  | .leaf item => item.source
  | .group stem children =>
      stem.text ++ "::\x7b" ++ ", ".intercalate (inKeyOrder (sources children)) ++ "\x7d"

def sources : List Tree → List (SortKey × String)
  | [] => []
  | tree :: rest => (tree.sortKey, tree.source) :: sources rest
end

mutual
def render : Tree → Except PrintFault String
  | .leaf item => item.render
  | .group stem children =>
      (renders children).map fun texts =>
        stem.text ++ "::\x7b" ++ ", ".intercalate (inKeyOrder texts) ++ "\x7d"

def renders : List Tree → Except PrintFault (List (SortKey × String))
  | [] => .ok []
  | tree :: rest => do
      let text ← tree.render
      let texts ← renders rest
      return (tree.sortKey, text) :: texts
end

end Tree

end ImportBlock
