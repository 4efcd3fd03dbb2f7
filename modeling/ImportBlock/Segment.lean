import ImportBlock.Identifier

namespace ImportBlock

/-! The segments of an import path. -/

inductive SegmentKind
  | name
  | self
  | super
  | crate
  | glob
deriving DecidableEq, Repr

/-- The text of a segment of this kind, if the kind decides it. -/
def SegmentKind.marker? : SegmentKind → Option String
  | .name => none
  | .self => some "self"
  | .super => some "super"
  | .crate => some "crate"
  | .glob => some "*"

/-- A segment may be built with a text that does not suit its kind; `Segment.isValid` tells. -/
structure Segment where
  kind : SegmentKind
  text : String
deriving DecidableEq, Repr

namespace Segment

def name (text : String) : Segment := ⟨.name, text⟩

def self : Segment := ⟨.self, "self"⟩

def super : Segment := ⟨.super, "super"⟩

def crate : Segment := ⟨.crate, "crate"⟩

def glob : Segment := ⟨.glob, "*"⟩

def ofText (text : String) : Segment :=
  if text = "*" then glob
  else if text = "self" then self
  else if text = "super" then super
  else if text = "crate" then crate
  else name text

def isGlob (segment : Segment) : Bool := segment.kind = .glob

/-- A name is valid if it is an identifier that binds something and is no keyword of paths. -/
def isValid (segment : Segment) : Bool :=
  match segment.kind.marker? with
  | some marker => segment.text = marker
  | none =>
      Identifier.accepts segment.text.toList && segment.text ≠ "_" &&
        !Identifier.isPathKeyword segment.text

/-- The place of a segment among its siblings: tiers count before texts. -/
structure Rank where
  tier : Nat
  text : String
deriving DecidableEq, Repr

instance : Ord Rank where
  compare := compareLex (compareOn Rank.tier) (compareOn Rank.text)

instance : Std.TransOrd Rank := inferInstanceAs (Std.TransCmp (compareLex _ _))

instance : Std.LawfulEqOrd Rank where
  eq_of_compare {left right} equal := by
    obtain ⟨tier, text⟩ := left
    obtain ⟨tier', text'⟩ := right
    have ⟨tiers, texts⟩ := Ordering.then_eq_eq.mp equal
    rw [Rank.mk.injEq]
    exact ⟨Std.LawfulEqOrd.eq_of_compare tiers, Std.LawfulEqOrd.eq_of_compare texts⟩

/-- The marker `self` comes first, a glob last, all else by its text in between. -/
def rank (segment : Segment) : Rank :=
  match segment.kind with
  | .self => ⟨0, ""⟩
  | .glob => ⟨2, ""⟩
  | _ => ⟨1, segment.text⟩

example : ofText "self" = self := by decide
example : ofText "r#self" = name "r#self" := by decide

end Segment

/-! A path is a list of segments, the outermost module first. -/

abbrev Path := List Segment

namespace Path

def text (path : Path) : String := "::".intercalate (path.map (·.text))

def ranks (path : Path) : List Segment.Rank := path.map (·.rank)

end Path

end ImportBlock
