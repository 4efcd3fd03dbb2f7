import ImportBlock.Metadata
import ImportBlock.Value

namespace ImportBlock

/-! Use statements as they are written, before they are expanded to paths, and how far a stretch of a text
reaches. -/

inductive UseTree
  | name (word : String)
  | rename (word : String) (name : String)
  | glob
  | path (word : String) (rest : UseTree)
  | group (items : List UseTree)
  /-- Something that is no use tree. Text never gives it. -/
  | foreign (value : Value)

/-- The characters from `start` up to `stop`. -/
structure Span where
  start : Nat
  stop : Nat
deriving DecidableEq, Repr

/-- One use item as it is written. -/
structure Statement where
  tree : UseTree
  metadata : Metadata := {}
  /-- The fragment that the statement belongs to. -/
  fragment : Option Int := some 0
  /-- Where the item stands, if it was read from a text. -/
  span : Option Span := none

end ImportBlock
