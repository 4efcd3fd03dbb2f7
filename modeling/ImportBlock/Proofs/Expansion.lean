import ImportBlock.Expansion
import ImportBlock.Proofs.UseTree
import ImportBlock.Proofs.Tree.Factor

/-! Which paths a use tree may spell, and that expanding one gives such paths only. -/

namespace ImportBlock

theorem exists_of_bind_eq_ok {ε α β : Type} {first : Except ε α} {next : α → Except ε β} {result : β}
    (success : (first >>= next) = .ok result) :
    ∃ value, first = .ok value ∧ next value = .ok result := by
  cases first with
  | error _ => cases success
  | ok value => exact ⟨value, rfl, success⟩

namespace Segment

/-- The rules of paths: where a segment may stand. Each kind of keyword has its own places. -/
def MayStand (before : Path) (last inGroup : Bool) (segment : Segment) : Prop :=
  match segment.kind with
  | .name => segment.isValid = true
  | .self => if before = [] then last = false else last = true ∧ inGroup = true
  | .crate => before = [] ∧ last = false
  | .super => (∀ segment ∈ before, segment.kind = .self ∨ segment.kind = .super) ∧ last = false
  | .glob => last = false

/-- A word gives the segment that it spells, exactly if that segment may stand there. -/
theorem check_eq_ok_iff {before : Path} {last inGroup : Bool} {word : String}
    {segment : Segment} :
    check before last inGroup word = .ok segment ↔
      segment = ofText word ∧ word ≠ "" ∧ segment.MayStand before last inGroup := by
  by_cases empty : word = ""
  · simp [check, empty]
  · constructor
    · intro checked
      have equal : segment = ofText word := by
        unfold check at checked
        grind
      refine ⟨equal, empty, ?_⟩
      rw [equal]
      cases kind : (ofText word).kind <;>
        simp only [check, MayStand, if_neg empty, kind] at checked ⊢ <;> grind
    · intro spelled
      rcases spelled with ⟨rfl, _, stands⟩
      cases kind : (ofText word).kind <;>
        simp only [check, MayStand, if_neg empty, kind] at stands ⊢ <;> grind

theorem mayStand_inGroup {before : Path} {last inGroup : Bool} {segment : Segment}
    (stands : segment.MayStand before last inGroup) : segment.MayStand before last true := by
  cases kind : segment.kind <;> simp only [MayStand, kind] at stands ⊢ <;> grind

theorem mayStand_outside {before : Path} {last : Bool} {segment : Segment}
    (stands : segment.MayStand before last true) (mild : last = false ∨ segment.kind ≠ .self)
    (inGroup : Bool) : segment.MayStand before last inGroup := by
  cases kind : segment.kind <;> simp only [MayStand, kind] at stands ⊢ <;> grind

/-- A segment of a path that a text can spell: its text is a word, or the star of a glob. -/
def Stands (before : Path) (last : Bool) (segment : Segment) : Prop :=
  if segment.kind = .glob then segment = glob ∧ before ≠ [] ∧ last = true
  else Identifier.IsWord segment.text.toList ∧ segment = ofText segment.text ∧
    segment.MayStand before last true

theorem stands_glob {before : Path} (behind : before ≠ []) : Stands before true glob :=
  ⟨rfl, behind, rfl⟩

theorem kind_ofText_ne_glob {word : String} (isWord : Identifier.IsWord word.toList) :
    (ofText word).kind ≠ .glob := by
  intro isGlob
  unfold ofText at isGlob
  split at isGlob
  · next star =>
      rw [star] at isWord
      revert isWord
      decide
  · split at isGlob
    · cases isGlob
    · split at isGlob
      · cases isGlob
      · split at isGlob <;> cases isGlob

theorem text_ofText (word : String) : (ofText word).text = word := by
  unfold ofText
  repeat' split
  all_goals simp_all [glob, self, super, crate, name]

theorem ofText_text {segment : Segment} (valid : segment.isValid = true) :
    ofText segment.text = segment := by
  rcases segment with ⟨kind, text⟩
  cases kind with
  | name =>
      simp only [isValid, SegmentKind.marker?, Identifier.isPathKeyword, Bool.and_eq_true,
        Bool.not_eq_true', Bool.or_eq_false_iff, beq_eq_false_iff_ne] at valid
      rcases valid with ⟨⟨accepted, _⟩, ⟨notSelf, notSuper⟩, notCrate⟩
      have notStar : text ≠ "*" := by
        rintro rfl
        revert accepted
        decide
      rw [ofText, if_neg notStar, if_neg notSelf, if_neg notSuper, if_neg notCrate]
      rfl
  | _ =>
      simp only [isValid, SegmentKind.marker?, decide_eq_true_eq] at valid
      subst valid
      rfl

theorem stands_of_check {before : Path} {last inGroup : Bool} {word : String} {segment : Segment}
    (isWord : Identifier.IsWord word.toList)
    (checked : check before last inGroup word = .ok segment) : Stands before last segment := by
  rcases check_eq_ok_iff.mp checked with ⟨rfl, _, stands⟩
  rw [Stands, if_neg (kind_ofText_ne_glob isWord), text_ofText]
  exact ⟨isWord, rfl, mayStand_inGroup stands⟩

theorem check_of_stands {before : Path} {last : Bool} {segment : Segment}
    (stands : segment.Stands before last) (noGlob : segment.kind ≠ .glob) (inGroup : Bool)
    (mild : last = false ∨ segment.kind ≠ .self ∨ inGroup = true) :
    check before last inGroup segment.text = .ok segment := by
  rw [Stands, if_neg noGlob] at stands
  rw [check_eq_ok_iff]
  refine ⟨stands.2.1, ?_, ?_⟩
  · intro empty
    rw [empty] at stands
    exact stands.1
  · cases inGroup with
    | true => exact stands.2.2
    | false => exact mayStand_outside stands.2.2 (by simpa using mild) false

theorem stands_name {before : Path} {last : Bool} {segment : Segment}
    (stands : segment.Stands before last) (isName : segment.kind = .name) (last' : Bool) :
    segment.Stands before last' := by
  have noGlob : segment.kind ≠ .glob := by simp [isName]
  rw [Stands, if_neg noGlob] at stands ⊢
  refine ⟨stands.1, stands.2.1, ?_⟩
  simpa only [MayStand, isName] using stands.2.2

/-- Whether the last segment of a path can be renamed: only what is no glob can be, and only to a
name. -/
def MayBeRenamed (last : Segment) (rename : Option String) : Prop :=
  ∀ target, rename = some target → last.kind ≠ .glob ∧ Identifier.IsWord target.toList ∧
    (target = "_" ∨ isRenameTarget target = true)

end Segment

namespace Path

/-- Whether each segment of a path is in a relation to the segments before it. -/
def AllBehind (holds : Path → Segment → Prop) (path : Path) : Prop :=
  ∀ before segment after, path = before ++ segment :: after → holds before segment

section AllBehind

variable {holds : Path → Segment → Prop}

theorem allBehind_nil : AllBehind holds [] := by
  intro before segment after equal
  simp at equal

theorem AllBehind.concat {path : Path} (all : path.AllBehind holds) {last : Segment}
    (behind : holds path last) : AllBehind holds (path ++ [last]) := by
  intro before segment after equal
  rcases List.eq_nil_or_concat after with rfl | ⟨others, final, rfl⟩
  · rcases List.append_singleton_inj.mp equal with ⟨rfl, rfl⟩
    exact behind
  · rw [List.concat_eq_append, ← List.cons_append, ← List.append_assoc] at equal
    exact all before segment others (List.append_singleton_inj.mp equal).1

end AllBehind

/-- Whether a path can be spelled in front of another segment. -/
def Leads : Path → Prop := AllBehind fun before segment => segment.Stands before false

/-- Whether a path can be spelled by a use tree. -/
def Legal (path : Path) : Prop :=
  ∃ (parents : Path) (last : Segment), path = parents ++ [last] ∧ parents.Leads ∧
    last.Stands parents true

theorem Leads.of_append {front back : Path} (leads : Leads (front ++ back)) : front.Leads := by
  intro before segment after equal
  apply leads before segment (after ++ back)
  rw [equal, List.append_assoc, List.cons_append]

theorem Leads.stands {before : Path} {segment : Segment} {after : Path}
    (leads : Leads (before ++ segment :: after)) : segment.Stands before false :=
  leads before segment after rfl

theorem Legal.ne_nil {path : Path} (legal : path.Legal) : path ≠ [] := by
  rcases legal with ⟨parents, last, rfl, _⟩
  simp

theorem legal_append {parents : Path} {last : Segment} :
    Legal (parents ++ [last]) ↔ parents.Leads ∧ last.Stands parents true := by
  constructor
  · intro legal
    rcases legal with ⟨parents', last', equal, leads, stands⟩
    rcases List.append_singleton_inj.mp equal with ⟨rfl, rfl⟩
    exact ⟨leads, stands⟩
  · intro parts
    exact ⟨parents, last, rfl, parts.1, parts.2⟩

end Path

/-! ## Canonical paths -/

namespace Leaf

theorem dropSelf_cases (path : Path) :
    dropSelf path = path ∨ ∃ parents name last, path = parents ++ [name, last] ∧
      name.kind = .name ∧ last.kind = .self ∧ dropSelf path = parents ++ [name] := by
  fun_induction dropSelf path with
  | case1 => exact .inl rfl
  | case2 => exact .inl rfl
  | case3 segment last redundant =>
      simp only [Bool.and_eq_true, decide_eq_true_eq] at redundant
      exact .inr ⟨[], segment, last, rfl, redundant.1, redundant.2, rfl⟩
  | case4 => exact .inl rfl
  | case5 segment rest _ _ induction =>
      rcases induction with equal | ⟨parents, name, last, rfl, isName, isSelf, equal⟩
      · exact .inl (by rw [equal])
      · exact .inr ⟨segment :: parents, name, last, rfl, isName, isSelf, by rw [equal]; rfl⟩

theorem dropSelf_dropSelf (path : Path) : dropSelf (dropSelf path) = dropSelf path := by
  rcases dropSelf_cases path with equal | ⟨parents, name, last, _, isName, _, equal⟩
  · rw [equal, equal]
  · rcases dropSelf_cases (dropSelf path) with
      same | ⟨parents', name', last', equal', _, isSelf, _⟩
    · exact same
    · rw [equal, List.append_cons parents' name' [last']] at equal'
      rw [(List.append_singleton_inj.mp equal').2, isSelf] at isName
      cases isName

theorem canonical_canonical (leaf : Leaf) : leaf.canonical.canonical = leaf.canonical := by
  simp only [canonical, dropSelf_dropSelf]

end Leaf

theorem Path.Legal.dropSelf {path : Path} (legal : path.Legal) : (Leaf.dropSelf path).Legal := by
  rcases Leaf.dropSelf_cases path with equal | ⟨parents, name, last, rfl, isName, _, equal⟩
  · rwa [equal]
  · rw [List.append_cons parents name [last], legal_append] at legal
    rw [equal, legal_append]
    exact ⟨legal.1.of_append, Segment.stands_name legal.1.stands isName true⟩

namespace Leaf

/-- Whether a use tree can spell a leaf: its path is legal, and only what is no glob is renamed. -/
structure Legal (leaf : Leaf) : Prop where
  path : leaf.path.Legal
  rename : ∀ target, leaf.rename = some target → leaf.isGlob = false ∧
    Identifier.IsWord target.toList ∧ (target = "_" ∨ isRenameTarget target = true)

theorem isGlob_concat {parents : Path} {last : Segment} {rename : Option String}
    {metadata : Metadata} :
    isGlob ⟨parents ++ [last], rename, metadata⟩ = last.isGlob := by
  simp [isGlob]

theorem legal_concat {parents : Path} {last : Segment} {rename : Option String}
    {metadata : Metadata} :
    Legal ⟨parents ++ [last], rename, metadata⟩ ↔
      parents.Leads ∧ last.Stands parents true ∧ last.MayBeRenamed rename := by
  have isGlob : isGlob ⟨parents ++ [last], rename, metadata⟩ = false ↔ last.kind ≠ .glob := by
    rw [isGlob_concat, Segment.isGlob, decide_eq_false_iff_not]
  constructor
  · intro legal
    have path := Path.legal_append.mp legal.path
    refine ⟨path.1, path.2, ?_⟩
    intro target equal
    have parts := legal.rename target equal
    exact ⟨isGlob.mp parts.1, parts.2⟩
  · intro parts
    refine ⟨Path.legal_append.mpr ⟨parts.1, parts.2.1⟩, ?_⟩
    intro target equal
    have renamed := parts.2.2 target equal
    exact ⟨isGlob.mpr renamed.1, renamed.2⟩

theorem isGlob_of_isGlob_canonical {leaf : Leaf} (kept : leaf.canonical.isGlob = true) :
    leaf.isGlob = true := by
  rcases leaf with ⟨path, rename, metadata⟩
  rcases dropSelf_cases path with equal | ⟨parents, name, last, _, isName, _, equal⟩
  · rwa [canonical, equal] at kept
  · rw [canonical, equal, isGlob_concat, Segment.isGlob, isName] at kept
    cases kept

theorem Legal.canonical {leaf : Leaf} (legal : leaf.Legal) : leaf.canonical.Legal := by
  refine ⟨legal.path.dropSelf, ?_⟩
  intro target renamed
  have parts := legal.rename target renamed
  refine ⟨?_, parts.2⟩
  rw [← Bool.not_eq_true]
  intro isGlob
  rw [isGlob_of_isGlob_canonical isGlob] at parts
  cases parts.1

end Leaf

/-! ## What trees expand to -/

namespace UseTree

variable {metadata : Metadata}

mutual
/-- A tree that was read from a text expands to legal leaves, all with the metadata of the item. -/
theorem legal_of_leaves : ∀ {tree : UseTree}, tree.IsRead → ∀ {before : Path}, before.Leads →
    ∀ {inGroup : Bool} {found : List Leaf}, tree.leaves metadata before inGroup = .ok found →
      ∀ leaf ∈ found, leaf.Legal ∧ leaf.metadata = metadata
  | .name word, read, before, leads, inGroup, found, success => by
      rw [leaves] at success
      rcases exists_of_bind_eq_ok success with ⟨segment, checked, equal⟩
      cases equal
      intro leaf member
      rw [List.mem_singleton.mp member]
      exact ⟨Leaf.legal_concat.mpr ⟨leads, Segment.stands_of_check read checked, nofun⟩, rfl⟩
  | .rename word target, read, before, leads, inGroup, found, success => by
      rw [leaves] at success
      rcases exists_of_bind_eq_ok success with ⟨segment, checked, success⟩
      split at success
      · next legal =>
          cases success
          simp only [Bool.or_eq_true, decide_eq_true_eq] at legal
          intro leaf member
          rw [List.mem_singleton.mp member]
          have stands := Segment.stands_of_check read.1 checked
          refine ⟨Leaf.legal_concat.mpr ⟨leads, stands, ?_⟩, rfl⟩
          intro target' equal
          cases equal
          rw [(Segment.check_eq_ok_iff.mp checked).1]
          exact ⟨Segment.kind_ofText_ne_glob read.1, read.2, legal⟩
      · cases success
  | .glob, _, before, leads, inGroup, found, success => by
      rw [leaves] at success
      split at success
      · cases success
      · next behind =>
          cases success
          intro leaf member
          rw [List.mem_singleton.mp member]
          exact ⟨Leaf.legal_concat.mpr ⟨leads, Segment.stands_glob behind, nofun⟩, rfl⟩
  | .path word rest, read, before, leads, inGroup, found, success => by
      rw [leaves] at success
      rcases exists_of_bind_eq_ok success with ⟨segment, checked, success⟩
      exact legal_of_leaves read.2 (leads.concat (Segment.stands_of_check read.1 checked)) success
  | .group items, read, before, leads, inGroup, found, success => by
      rw [leaves] at success
      exact legal_of_allLeaves read leads success
  | .foreign _, read, _, _, _, _, _ => read.elim

theorem legal_of_allLeaves : ∀ {items : List UseTree}, AllRead items → ∀ {before : Path},
    before.Leads → ∀ {found : List Leaf}, allLeaves metadata before items = .ok found →
      ∀ leaf ∈ found, leaf.Legal ∧ leaf.metadata = metadata
  | [], _, before, leads, found, success => by
      cases success
      exact nofun
  | tree :: rest, read, before, leads, found, success => by
      rw [allLeaves] at success
      rcases exists_of_bind_eq_ok success with ⟨first, here, success⟩
      rcases exists_of_bind_eq_ok success with ⟨others, later, success⟩
      cases success
      intro leaf member
      rcases List.mem_append.mp member with inside | behind
      · exact legal_of_leaves read.1 leads here leaf inside
      · exact legal_of_allLeaves read.2 leads later leaf behind
end

end UseTree

end ImportBlock
