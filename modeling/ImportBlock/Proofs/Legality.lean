import ImportBlock.Proofs.Fragment
import Mathlib

/-! The rules of use paths, place by place. A place is where a word or a glob stands in a use tree. What
may stand there depends on the words on the way to it, on whether it stands directly inside braces, and on
whether a path goes on behind it. A statement expands exactly if all its places keep to the rules, and it
gives what is spelled at those places where a path ends. -/

namespace ImportBlock

inductive Mark
  /-- A word with a `::` behind it. -/
  | onward (word : String)
  | name (word : String)
  | rename (word : String) (target : String)
  | glob
deriving DecidableEq

structure Place where
  /-- The words on the way to the place. -/
  before : List String
  /-- Whether the place is an item of a group. Inside nested braces it is an item of the inner one. -/
  inBraces : Bool
  mark : Mark
deriving DecidableEq

namespace UseTree

mutual
/-- The places of a tree behind some words, in the order of the text. Something foreign has none. -/
def places (before : List String) (inBraces : Bool) : UseTree → List Place
  | .name word => [⟨before, inBraces, .name word⟩]
  | .rename word target => [⟨before, inBraces, .rename word target⟩]
  | .glob => [⟨before, inBraces, .glob⟩]
  | .path word rest =>
      ⟨before, inBraces, .onward word⟩ :: rest.places (before ++ [word]) false
  | .group items => allPlaces before items
  | .foreign _ => []

def allPlaces (before : List String) : List UseTree → List Place
  | [] => []
  | tree :: rest => tree.places before true ++ allPlaces before rest
end

end UseTree

namespace Place

/-- The rules for a word. `goesOn` says whether a path goes on behind it. -/
structure Admits (before : List String) (inBraces goesOn : Bool) (word : String) : Prop where
  blank : word ≠ "_"
  crate : word = "crate" → before = [] ∧ goesOn = true
  super : word = "super" → (∀ other ∈ before, other = "self" ∨ other = "super") ∧ goesOn = true
  self : word = "self" →
    (before = [] ∧ goesOn = true) ∨ (before ≠ [] ∧ goesOn = false ∧ inBraces = true)

instance (before : List String) (inBraces goesOn : Bool) (word : String) :
    Decidable (Admits before inBraces goesOn word) :=
  decidable_of_iff (word ≠ "_" ∧ (word = "crate" → before = [] ∧ goesOn = true) ∧
      (word = "super" → (∀ other ∈ before, other = "self" ∨ other = "super") ∧ goesOn = true) ∧
      (word = "self" →
        (before = [] ∧ goesOn = true) ∨ (before ≠ [] ∧ goesOn = false ∧ inBraces = true)))
    (Iff.intro (fun rules => ⟨rules.1, rules.2.1, rules.2.2.1, rules.2.2.2⟩)
      fun admits => ⟨admits.blank, admits.crate, admits.super, admits.self⟩)

def IsLegal (place : Place) : Prop :=
  match place.mark with
  | .onward word => Admits place.before place.inBraces true word
  | .name word => Admits place.before place.inBraces false word
  | .rename word target => Admits place.before place.inBraces false word ∧
      target ≠ "self" ∧ target ≠ "super" ∧ target ≠ "crate"
  | .glob => place.before ≠ []

instance (place : Place) : Decidable place.IsLegal :=
  match place with
  | ⟨before, inBraces, .onward word⟩ => inferInstanceAs (Decidable (Admits before inBraces true word))
  | ⟨before, inBraces, .name word⟩ => inferInstanceAs (Decidable (Admits before inBraces false word))
  | ⟨before, inBraces, .rename word target⟩ =>
      inferInstanceAs (Decidable (Admits before inBraces false word ∧
        target ≠ "self" ∧ target ≠ "super" ∧ target ≠ "crate"))
  | ⟨before, _, .glob⟩ => inferInstanceAs (Decidable (before ≠ []))

/-- The import that is spelled up to a place, if a path ends there. -/
def leaf? (metadata : Metadata) (place : Place) : Option Leaf :=
  match place.mark with
  | .onward _ => none
  | .name word => some ⟨(place.before ++ [word]).map Segment.ofText, none, metadata⟩
  | .rename word target =>
      some ⟨(place.before ++ [word]).map Segment.ofText, some target, metadata⟩
  | .glob => some ⟨(place.before ++ ["*"]).map Segment.ofText, none, metadata⟩

end Place

/-! ## Words -/

namespace Segment

theorem kind_ofText_eq_self {word : String} : (ofText word).kind = .self ↔ word = "self" := by
  unfold ofText
  split_ifs <;> simp_all [glob, self, super, crate, name]

theorem kind_ofText_eq_super {word : String} : (ofText word).kind = .super ↔ word = "super" := by
  unfold ofText
  split_ifs <;> simp_all [glob, self, super, crate, name]

theorem kind_ofText_eq_crate {word : String} : (ofText word).kind = .crate ↔ word = "crate" := by
  unfold ofText
  split_ifs <;> simp_all [glob, self, super, crate, name]

theorem ofText_of_isName {word : String} (isName : (ofText word).kind = .name) :
    ofText word = name word := by
  unfold ofText at isName ⊢
  split_ifs at isName ⊢ <;> simp_all [glob, self, super, crate]

theorem kind_ofText_eq_name_iff {word : String} (isWord : Identifier.IsWord word.toList) :
    (ofText word).kind = .name ↔ word ≠ "self" ∧ word ≠ "super" ∧ word ≠ "crate" := by
  have noGlob := kind_ofText_ne_glob isWord
  rw [Ne, Ne, Ne, ← kind_ofText_eq_self, ← kind_ofText_eq_super, ← kind_ofText_eq_crate]
  cases kind : (ofText word).kind <;> simp_all

/-- The rules for segments, told by the words that these are read from. -/
theorem mayStand_ofText_iff {before : List String} {last inBraces : Bool} {word : String}
    (isWord : Identifier.IsWord word.toList) :
    (ofText word).MayStand (before.map ofText) last inBraces ↔
      Place.Admits before inBraces (!last) word := by
  cases kind : (ofText word).kind with
  | name =>
      rcases (kind_ofText_eq_name_iff isWord).mp kind with ⟨noSelf, noSuper, noCrate⟩
      have plain : Identifier.isPathKeyword word = false := by
        simp [Identifier.isPathKeyword, noSelf, noSuper, noCrate]
      have valid : (ofText word).isValid = true ↔ word ≠ "_" := by
        rw [ofText_of_isName kind, isValid]
        simp only [name, SegmentKind.marker?, Identifier.accepts_of_isWord isWord, plain,
          Bool.true_and, Bool.not_false, Bool.and_true]
        exact decide_eq_true_iff
      simp only [MayStand, kind, valid]
      constructor
      · intro noBlank
        exact ⟨noBlank, fun equal => absurd equal noCrate, fun equal => absurd equal noSuper,
          fun equal => absurd equal noSelf⟩
      · exact Place.Admits.blank
  | self =>
      have isSelf := kind_ofText_eq_self.mp kind
      subst isSelf
      simp only [MayStand, kind, List.map_eq_nil_iff]
      constructor
      · intro stands
        refine ⟨by simp, by simp, by simp, fun _ => ?_⟩
        by_cases first : before = [] <;> simp_all
      · intro admitted
        have self := admitted.self rfl
        by_cases first : before = [] <;> simp_all
  | super =>
      have isSuper := kind_ofText_eq_super.mp kind
      subst isSuper
      simp only [MayStand, kind, List.forall_mem_map, kind_ofText_eq_self, kind_ofText_eq_super]
      constructor
      · intro stands
        exact ⟨by simp, by simp, fun _ => ⟨stands.1, by simp [stands.2]⟩, by simp⟩
      · intro admitted
        simpa using admitted.super rfl
  | crate =>
      have isCrate := kind_ofText_eq_crate.mp kind
      subst isCrate
      simp only [MayStand, kind, List.map_eq_nil_iff]
      constructor
      · intro stands
        exact ⟨by simp, fun _ => ⟨stands.1, by simp [stands.2]⟩, by simp, by simp⟩
      · intro admitted
        simpa using admitted.crate rfl
  | glob => exact absurd kind (kind_ofText_ne_glob isWord)

/-- A word is taken exactly where the rules admit it. -/
theorem check_bind_eq_ok_iff {β : Type} {before : List String} {last inBraces : Bool}
    {word : String} (isWord : Identifier.IsWord word.toList)
    {next : Segment → Except PathFault β} {result : β} :
    (check (before.map ofText) last inBraces word >>= next) = .ok result ↔
      Place.Admits before inBraces (!last) word ∧ next (ofText word) = .ok result := by
  have nonempty : word ≠ "" := by
    intro empty
    rw [empty] at isWord
    exact isWord
  rw [← mayStand_ofText_iff isWord]
  constructor
  · intro success
    rcases exists_of_bind_eq_ok success with ⟨segment, checked, success⟩
    rcases check_eq_ok_iff.mp checked with ⟨rfl, _, stands⟩
    exact ⟨stands, success⟩
  · intro both
    rw [check_eq_ok_iff.mpr ⟨rfl, nonempty, both.1⟩]
    exact both.2

theorem isRenameTarget_iff {target : String} (isWord : Identifier.IsWord target.toList) :
    (target = "_" ∨ isRenameTarget target = true) ↔
      target ≠ "self" ∧ target ≠ "super" ∧ target ≠ "crate" := by
  rw [isRenameTarget, Identifier.accepts_of_isWord isWord, Bool.true_and, decide_eq_true_eq,
    kind_ofText_eq_name_iff isWord]
  constructor
  · intro allowed
    rcases allowed with rfl | free
    · decide
    · exact free
  · exact .inr

end Segment

/-! ## Trees -/

namespace UseTree

variable {metadata : Metadata}

mutual
theorem leaves_eq_ok_iff : ∀ {tree : UseTree}, tree.IsRead →
    ∀ {before : List String} {inBraces : Bool} {found : List Leaf},
      tree.leaves metadata (before.map Segment.ofText) inBraces = .ok found ↔
        (∀ place ∈ tree.places before inBraces, place.IsLegal) ∧
          (tree.places before inBraces).filterMap (Place.leaf? metadata) = found
  | .name word, read, before, inBraces, found => by
      rw [leaves, Segment.check_bind_eq_ok_iff read]
      simp [places, Place.IsLegal, Place.leaf?, pure, Except.pure]
  | .rename word target, read, before, inBraces, found => by
      rw [leaves, Segment.check_bind_eq_ok_iff read.1]
      have allowed := Segment.isRenameTarget_iff read.2
      simp only [Bool.or_eq_true, decide_eq_true_eq, allowed]
      by_cases free : target ≠ "self" ∧ target ≠ "super" ∧ target ≠ "crate"
      · simp [places, Place.IsLegal, Place.leaf?, free, pure, Except.pure]
      · simp only [if_neg free, reduceCtorEq, and_false, false_iff]
        intro legal
        exact free (List.forall_mem_singleton.mp legal.1).2
  | .glob, _, before, inBraces, found => by
      rw [leaves]
      by_cases first : before = []
      · simp [places, Place.IsLegal, first]
      · simp [places, Place.IsLegal, Place.leaf?, first, Segment.ofText]
  | .path word rest, read, before, inBraces, found => by
      have concat : before.map Segment.ofText ++ [Segment.ofText word] =
          (before ++ [word]).map Segment.ofText := by
        rw [List.map_append, List.map_singleton]
      rw [leaves, Segment.check_bind_eq_ok_iff read.1, concat, leaves_eq_ok_iff read.2, places,
        List.forall_mem_cons, and_assoc]
      rfl
  | .group items, read, before, inBraces, found => by
      rw [leaves, places]
      exact allLeaves_eq_ok_iff read
  | .foreign _, read, _, _, _ => read.elim

theorem allLeaves_eq_ok_iff : ∀ {items : List UseTree}, AllRead items →
    ∀ {before : List String} {found : List Leaf},
      allLeaves metadata (before.map Segment.ofText) items = .ok found ↔
        (∀ place ∈ allPlaces before items, place.IsLegal) ∧
          (allPlaces before items).filterMap (Place.leaf? metadata) = found
  | [], _, before, found => by
      simp [allLeaves, allPlaces]
  | tree :: rest, read, before, found => by
      rw [allLeaves, allPlaces, List.forall_mem_append, List.filterMap_append]
      constructor
      · intro success
        rcases exists_of_bind_eq_ok success with ⟨first, here, success⟩
        rcases exists_of_bind_eq_ok success with ⟨others, later, equal⟩
        cases equal
        rcases (leaves_eq_ok_iff read.1).mp here with ⟨legal, rfl⟩
        rcases (allLeaves_eq_ok_iff read.2).mp later with ⟨legal', rfl⟩
        exact ⟨⟨legal, legal'⟩, rfl⟩
      · intro given
        rcases given with ⟨⟨legal, legal'⟩, rfl⟩
        rw [(leaves_eq_ok_iff read.1).mpr ⟨legal, rfl⟩,
          (allLeaves_eq_ok_iff read.2).mpr ⟨legal', rfl⟩]
        rfl
end

end UseTree

/-! ## Statements -/

namespace Statement

variable {statement : Statement}

theorem leaves_eq_ok_iff (read : statement.tree.IsRead) {found : List Leaf} :
    statement.tree.leaves statement.metadata [] false = .ok found ↔
      (∀ place ∈ statement.tree.places [] false, place.IsLegal) ∧
        (statement.tree.places [] false).filterMap (Place.leaf? statement.metadata) = found :=
  @UseTree.leaves_eq_ok_iff _ _ read [] _ _

/-- A statement with words from a text expands exactly if each of its places is legal, also those in
front of an empty group. Then its trees hold the imports that are spelled at the places, each of them once
and with the metadata of the statement. Otherwise the error names the fragment of the statement. -/
theorem expand_iff_isLegal (statement : Statement) (read : statement.tree.IsRead) :
    ((∃ trees, statement.expand = .ok trees) ↔
      ∀ place ∈ statement.tree.places [] false, place.IsLegal) ∧
    (∀ trees, statement.expand = .ok trees → (Tree.allLeaves trees).Perm
      ((statement.tree.places [] false).filterMap
        (Place.leaf? statement.metadata)).eraseDups) ∧
    ((∀ trees, statement.expand ≠ .ok trees) →
      ∃ error, statement.expand = .error error ∧ error.fragment = statement.fragment) := by
  refine ⟨⟨?_, ?_⟩, ?_, ?_⟩
  · intro accepted
    rcases accepted with ⟨trees, success⟩
    rcases expands_of_expand success with ⟨found, spelled⟩
    exact ((leaves_eq_ok_iff read).mp spelled).1
  · intro legal
    rcases exists_expand ⟨_, (leaves_eq_ok_iff read).mpr ⟨legal, rfl⟩⟩ with ⟨trees, success, _⟩
    exact ⟨trees, success⟩
  · intro trees success
    rcases allLeaves_perm_of_expand success with ⟨found, spelled, perm⟩
    rwa [((leaves_eq_ok_iff read).mp spelled).2]
  · intro refused
    cases result : statement.expand with
    | ok trees => exact absurd result (refused trees)
    | error error => exact ⟨error, rfl, fragment_of_expand result⟩

theorem expand_iff_isLegal_nested_braces :
    ∃ trees, expand ⟨.path "a" (.group [.group [.name "self"], .rename "b" "_", .group [], .glob,
        .rename "b" "_"]), { visibility := "pub" }, some 3, none⟩ = .ok trees ∧
      (Tree.allLeaves trees).Perm
        [⟨[.name "a", .self], none, { visibility := "pub" }⟩,
          ⟨[.name "a", .name "b"], some "_", { visibility := "pub" }⟩,
          ⟨[.name "a", .glob], none, { visibility := "pub" }⟩] := by
  have expands := expand_iff_isLegal ⟨.path "a" (.group [.group [.name "self"], .rename "b" "_",
    .group [], .glob, .rename "b" "_"]), { visibility := "pub" }, some 3, none⟩
    (by simp only [UseTree.IsRead, UseTree.AllRead]; decide)
  rcases expands.1.mpr (by decide) with ⟨trees, success⟩
  exact ⟨trees, success, expands.2.1 trees success⟩

example : ¬∀ place ∈ UseTree.places [] false (.path "a" (.path "super" (.group []))),
    place.IsLegal := by decide

end Statement

end ImportBlock
