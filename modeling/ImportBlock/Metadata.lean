import ImportBlock.Text.Blank

namespace ImportBlock

/-! What a whole use item says about each of its imports. -/

structure Metadata where
  /-- Empty for a private item. -/
  visibility : String := ""
  /-- The attributes before the item, without the brackets around them. -/
  attributes : List String := []
  /-- Whether the path is written with a leading `::`. -/
  leadingColon : Bool := false
deriving DecidableEq, Repr

namespace Metadata

instance : Ord Metadata where
  compare := compareLex (compareOn Metadata.visibility)
    (compareLex (compareOn Metadata.attributes) (compareOn Metadata.leadingColon))

instance : Std.TransOrd Metadata :=
  inferInstanceAs (Std.TransCmp (compareLex _ (compareLex _ _)))

instance : Std.LawfulEqOrd Metadata where
  eq_of_compare {left right} equal := by
    obtain ⟨visibility, attributes, leadingColon⟩ := left
    obtain ⟨visibility', attributes', leadingColon'⟩ := right
    have ⟨visibilities, others⟩ := Ordering.then_eq_eq.mp equal
    have ⟨lists, colons⟩ := Ordering.then_eq_eq.mp others
    rw [Metadata.mk.injEq]
    exact ⟨Std.LawfulEqOrd.eq_of_compare visibilities, Std.LawfulEqOrd.eq_of_compare lists,
      Std.LawfulEqOrd.eq_of_compare colons⟩

/-- Whether an attribute makes its item depend on the build: a `cfg` before a parenthesis. -/
def gates (body : String) : Bool :=
  match body.toList with
  | 'c' :: 'f' :: 'g' :: rest => (rest.dropWhile Text.isBlank).head? == some '('
  | _ => false

/-- The conditions under which the item exists. Other attributes do not change where its names are
visible. -/
def scope (metadata : Metadata) : List String := metadata.attributes.filter gates

/-- Whether two items may exist in one build: one of them has no condition, or both have the same
set of conditions. -/
def overlaps (left right : Metadata) : Bool :=
  left.scope.isEmpty || right.scope.isEmpty ||
    (left.scope.all right.scope.contains && right.scope.all left.scope.contains)

def bracketed (body : String) : String := "#[" ++ body ++ "]"

def text (metadata : Metadata) : String :=
  let parts := metadata.attributes.map bracketed ++
    (if metadata.visibility = "" then [] else [metadata.visibility]) ++
    (if metadata.leadingColon then ["::"] else [])
  if parts = [] then "<private>" else " ".intercalate parts

example : gates "cfg (test)" = true := by decide
example : gates "cfg_attr(test, allow(unused))" = false := by decide
example : text { visibility := "pub", leadingColon := true } = "pub ::" := by decide

end Metadata

end ImportBlock
