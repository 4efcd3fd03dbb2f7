import ImportBlock.Section

namespace ImportBlock

/-! Assembling a block from the fragments that a file is put together from. -/

/-- A contribution to a block: source text, statements, or trees. -/
inductive Fragment
  | text (source : String)
  | statements (statements : List Statement)
  | forest (forest : Forest)

inductive ImportError
  | syntactic (error : SyntaxError)
  | conflict (conflict : Conflict)

def ImportError.text : ImportError → String
  | .syntactic error => error.text
  | .conflict cause => cause.message

/-- The trees of a fragment. Text and statements count as the fragment `number`, trees keep the
number that they have. -/
def Fragment.toForest (number : Int) : Fragment → Except SyntaxError Forest
  | .text source => Forest.ofText source (some number)
  | .statements items => Forest.ofStatements items (some number)
  | .forest given => .ok given

structure Assembly where
  config : Config
  fragments : List Fragment := []

namespace Assembly

def add (assembly : Assembly) (fragment : Fragment) : Nat × Assembly :=
  (assembly.fragments.length,
    { assembly with fragments := assembly.fragments ++ [fragment] })

def forests (assembly : Assembly) : Except SyntaxError (List Forest) :=
  assembly.fragments.zipIdx.mapM fun (fragment, number) => fragment.toForest number

def merge (assembly : Assembly) : Except ImportError MergedSet :=
  match assembly.forests with
  | .error error => .error (.syntactic error)
  | .ok forests =>
      match MergedSet.merge forests assembly.config.absorbUnaliased with
      | .error conflict => .error (.conflict conflict)
      | .ok merged => .ok merged

end Assembly

end ImportBlock
