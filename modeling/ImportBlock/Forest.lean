import ImportBlock.Expansion
import ImportBlock.Statement.Cursor

namespace ImportBlock

/-! Forests: the trees that one fragment contributes. -/

structure Forest where
  fragment : Int
  roots : List Tree

namespace Forest

/-- The trees of statements, one statement after the other. All statements count as belonging to
the fragment `number`; if that is not given, to the one that the first statement with a fragment
names. The number found is given back. -/
def expandAll : (number : Option Int) → List Statement →
    Except SyntaxError (Option Int × List Tree)
  | number, [] => .ok (number, [])
  | number, statement :: rest => do
      let known := number.or statement.fragment
      let trees ← { statement with fragment := known }.expand
      let (found, others) ← expandAll known rest
      return (found, trees ++ others)

def ofStatements (statements : List Statement) (fragment : Option Int := none) :
    Except SyntaxError Forest := do
  let (found, trees) ← expandAll fragment statements
  return ⟨found.getD 0, trees⟩

def ofText (text : String) (fragment : Option Int := some 0) : Except SyntaxError Forest := do
  let statements ← Statement.parse text fragment
  ofStatements statements fragment

def leaves (forest : Forest) : List Leaf := Tree.allLeaves forest.roots

/-- Whether two forests belong to the same fragment and have the same trees in the same order. -/
def same (left right : Forest) : Bool :=
  left.fragment == right.fragment && left.roots.length == right.roots.length &&
    (left.roots.zip right.roots).all fun (tree, other) => tree.same other

end Forest

end ImportBlock
