import ImportBlock.Proofs.Config.Name
import ImportBlock.Proofs.ReadBack
import ImportBlock.Proofs.Tree.Rearrangement
import Mathlib

/-! Trees that are grouped in any way: with stems that are shorter than they could be, with groups of one
child, with groups inside of groups. Whether such a tree can be read back is decided by its leaves with
their full paths alone: the words of these have to be identifiers, and the paths have to keep to the rules
for keywords and globs, which are told here by the places in a path. Then the text of the tree is read as
one statement, and this expands to the leaves of the tree. There is no text for a tree with a leaf that has
no segment of its own. -/

namespace ImportBlock

/-! ## Words -/

/-- Whether a word is cut into one token, an identifier. -/
def Identifier.IsToken (word : String) : Prop :=
  TokenStream.ofText word.toList = ⟨[⟨.identifier, word, 0, word.length⟩], none, word.length⟩

theorem Identifier.isToken_iff {word : String} : IsToken word ↔ IsWord word.toList := by
  constructor
  · intro isToken
    have tokens : Text.tokens 0 word.toList = [⟨.identifier, word, 0, word.length⟩] :=
      congrArg TokenStream.tokens isToken
    have spelled : (⟨.identifier, word⟩ : Word) ∈ Text.words word.toList := by
      rw [← Text.map_word_tokens 0, tokens]
      exact List.mem_singleton_self _
    exact (Text.isRead_of_mem_words spelled).isWord rfl
  · intro isWord
    have fills : Text.Fills word.toList [⟨.identifier, word⟩] [] :=
      Text.fills_identifier isWord nofun
    have tokens : Text.tokens 0 word.toList = [⟨.identifier, word, 0, word.length⟩] := by
      simpa only [List.append_nil, Text.tokens_nil, String.length_toList, Nat.zero_add]
        using fills.tokens_eq 0
    have fault : Text.fault? word.toList = none := by simpa using fills.fault?
    rw [IsToken, TokenStream.ofText, TokenStream.mk.injEq]
    exact ⟨tokens, congrArg _ fault, String.length_toList⟩

instance (word : String) : Decidable (Identifier.IsToken word) :=
  decidable_of_iff' _ Identifier.isToken_iff

/-! ## Paths -/

namespace Segment

theorem isWord_of_isValid {segment : Segment} (valid : segment.isValid = true)
    (noName : segment.kind ≠ .name) (noGlob : segment.kind ≠ .glob) :
    Identifier.IsWord segment.text.toList := by
  rcases segment with ⟨kind, text⟩
  cases kind with
  | name => exact absurd rfl noName
  | glob => exact absurd rfl noGlob
  | _ =>
      have marker : text = _ := of_decide_eq_true valid
      rw [marker]
      decide

/-- What each kind of segment asks of the path around it. -/
@[mk_iff]
structure Fits (before : Path) (last : Bool) (segment : Segment) : Prop where
  name : segment.kind = .name → Identifier.IsWord segment.text.toList
  crate : segment.kind = .crate → before = [] ∧ last = false
  super : segment.kind = .super →
    (∀ other ∈ before, other.kind = .self ∨ other.kind = .super) ∧ last = false
  self : segment.kind = .self → (before = [] ↔ last = false)
  glob : segment.kind = .glob → before ≠ [] ∧ last = true

theorem stands_iff_fits {before : Path} {last : Bool} {segment : Segment}
    (valid : segment.isValid = true) : segment.Stands before last ↔ segment.Fits before last := by
  have spelled := ofText_text valid
  have word := isWord_of_isValid valid
  rw [fits_iff]
  rcases segment with ⟨kind, text⟩
  cases kind with
  | name => simp [Stands, MayStand, spelled, valid]
  | self => by_cases first : before = [] <;> simp [Stands, MayStand, spelled, word, first]
  | super | crate => simp [Stands, MayStand, spelled, word]
  | glob =>
      have star : text = "*" := of_decide_eq_true valid
      simp [Stands, Segment.glob, star]

end Segment

namespace Path

/-- The rules of paths, by the places of the segments: `crate` comes first, `super` behind `self` and
`super` only, `self` first or last, and a glob last. A path ends in a name, or behind another segment in
`self` or a glob. -/
@[mk_iff]
structure KeepsRules (path : Path) : Prop where
  nonempty : path ≠ []
  crate : ∀ place (inside : place < path.length), path[place].kind = .crate → place = 0
  super : ∀ place (inside : place < path.length), path[place].kind = .super →
    ∀ segment ∈ path.take place, segment.kind = .self ∨ segment.kind = .super
  self : ∀ place (inside : place < path.length), path[place].kind = .self →
    place = 0 ∨ place + 1 = path.length
  glob : ∀ place (inside : place < path.length), path[place].kind = .glob →
    place + 1 = path.length
  ends : ∀ place (inside : place < path.length), place + 1 = path.length →
    path[place].kind = .name ∨
      (path[place].kind = .self ∨ path[place].kind = .glob) ∧ 0 < place

instance (path : Path) : Decidable path.KeepsRules :=
  decidable_of_iff' _ (keepsRules_iff path)

theorem legal_iff_forall_stands {path : Path} :
    path.Legal ↔ path ≠ [] ∧ ∀ place (inside : place < path.length),
      path[place].Stands (path.take place) (decide (place + 1 = path.length)) := by
  constructor
  · intro legal
    refine ⟨legal.ne_nil, ?_⟩
    rcases legal with ⟨parents, last, rfl, leads, stands⟩
    intro place inside
    rw [List.length_append, List.length_singleton] at inside
    rcases Nat.lt_succ_iff_lt_or_eq.mp inside with early | rfl
    · have cut : parents = parents.take place ++ parents[place] :: parents.drop (place + 1) := by
        simp
      have standing := leads _ _ _ cut
      rw [List.getElem_append_left early, List.take_append_of_le_length early.le]
      simpa [early.ne] using standing
    · simpa using stands
  · intro each
    rcases List.eq_nil_or_concat path with rfl | ⟨parents, last, rfl⟩
    · exact absurd rfl each.1
    · rw [List.concat_eq_append] at each ⊢
      refine legal_append.mpr ⟨?_, ?_⟩
      · rintro before segment after rfl
        simpa using each.2 before.length (by simp)
      · simpa using each.2 parents.length (by simp)

theorem take_eq_nil {path : Path} (nonempty : path ≠ []) (place : Nat) :
    path.take place = [] ↔ place = 0 := by
  rw [List.take_eq_nil_iff, or_iff_left nonempty]

theorem KeepsRules.fits {path : Path} (rules : path.KeepsRules)
    (names : ∀ segment ∈ path, segment.kind = .name → Identifier.IsWord segment.text.toList)
    (place : Nat) (inside : place < path.length) :
    path[place].Fits (path.take place) (decide (place + 1 = path.length)) := by
  have first := take_eq_nil rules.nonempty place
  have ends := rules.ends place inside
  constructor
  case name => exact names _ (List.getElem_mem inside)
  case crate =>
    intro isCrate
    rw [first, decide_eq_false_iff_not]
    exact ⟨rules.crate place inside isCrate, by simpa [isCrate] using ends⟩
  case super =>
    intro isSuper
    rw [decide_eq_false_iff_not]
    exact ⟨rules.super place inside isSuper, by simpa [isSuper] using ends⟩
  case self =>
    intro isSelf
    have around := rules.self place inside isSelf
    rw [first, decide_eq_false_iff_not]
    simp only [isSelf, reduceCtorEq, or_false, true_and, false_or] at ends
    omega
  case glob =>
    intro isGlob
    have last := rules.glob place inside isGlob
    simp only [isGlob, reduceCtorEq, or_true, true_and, false_or] at ends
    rw [Ne, first, decide_eq_true_eq]
    exact ⟨(ends last).ne', last⟩

theorem keepsRules_of_fits {path : Path} (nonempty : path ≠ [])
    (fits : ∀ place (inside : place < path.length),
      path[place].Fits (path.take place) (decide (place + 1 = path.length))) :
    path.KeepsRules := by
  have first := take_eq_nil nonempty
  constructor
  case nonempty => exact nonempty
  case crate =>
    exact fun place inside isCrate => (first place).mp ((fits place inside).crate isCrate).1
  case super => exact fun place inside isSuper => ((fits place inside).super isSuper).1
  case self =>
    intro place inside isSelf
    have around := (fits place inside).self isSelf
    rw [first, decide_eq_false_iff_not] at around
    omega
  case glob =>
    exact fun place inside isGlob => of_decide_eq_true ((fits place inside).glob isGlob).2
  case ends =>
    intro place inside last
    have fit := fits place inside
    rw [decide_eq_true last] at fit
    cases kind : path[place].kind with
    | name => exact .inl rfl
    | self =>
        have behind := (fit.self kind).not.mpr (by decide)
        rw [first] at behind
        exact .inr ⟨.inl rfl, Nat.pos_of_ne_zero behind⟩
    | glob =>
        have behind := (fit.glob kind).1
        rw [Ne, first] at behind
        exact .inr ⟨.inr rfl, Nat.pos_of_ne_zero behind⟩
    | super => exact absurd (fit.super kind).2 (by decide)
    | crate => exact absurd (fit.crate kind).2 (by decide)

theorem legal_iff_keepsRules {path : Path} (valid : path.IsValid) :
    path.Legal ↔ path.KeepsRules ∧
      ∀ segment ∈ path, segment.kind = .name → Identifier.IsWord segment.text.toList := by
  have fits_iff : ∀ place (inside : place < path.length),
      path[place].Stands (path.take place) (decide (place + 1 = path.length)) ↔
        path[place].Fits (path.take place) (decide (place + 1 = path.length)) :=
    fun place inside => Segment.stands_iff_fits (valid _ (List.getElem_mem inside))
  simp only [legal_iff_forall_stands, fits_iff]
  constructor
  · rintro ⟨nonempty, fits⟩
    refine ⟨keepsRules_of_fits nonempty fits, fun segment member isName => ?_⟩
    rcases List.getElem_of_mem member with ⟨place, inside, rfl⟩
    exact (fits place inside).name isName
  · rintro ⟨rules, names⟩
    exact ⟨rules.nonempty, rules.fits names⟩

end Path

/-! ## Leaves -/

namespace Leaf

/-- Whether a leaf is spelled by identifiers, in the places where these may stand. -/
@[mk_iff]
structure IsSpellable (leaf : Leaf) : Prop where
  names : ∀ segment ∈ leaf.path, segment.kind = .name → Identifier.IsToken segment.text
  rules : leaf.path.KeepsRules
  target : ∀ target ∈ leaf.rename,
    Identifier.IsToken target ∧ target ≠ "self" ∧ target ≠ "super" ∧ target ≠ "crate"
  glob : leaf.isGlob = true → leaf.rename = none

instance (leaf : Leaf) : Decidable leaf.IsSpellable :=
  decidable_of_iff' _ leaf.isSpellable_iff

theorem legal_iff_isSpellable {leaf : Leaf} (valid : leaf.path.IsValid) :
    leaf.Legal ↔ leaf.IsSpellable := by
  have path := Path.legal_iff_keepsRules valid
  constructor
  · intro legal
    have ⟨rules, names⟩ := path.mp legal.path
    constructor
    case names =>
      intro segment member isName
      exact Identifier.isToken_iff.mpr (names segment member isName)
    case rules => exact rules
    case target =>
      intro target renamed
      have parts := (legal.rename target renamed).2
      exact ⟨Identifier.isToken_iff.mpr parts.1, (Segment.isRenameTarget_iff parts.1).mp parts.2⟩
    case glob =>
      intro isGlob
      by_contra renamed
      rcases Option.ne_none_iff_exists'.mp renamed with ⟨target, renamed⟩
      exact Bool.noConfusion (isGlob.symm.trans (legal.rename target renamed).1)
  · intro spellable
    have names := fun segment member isName =>
      Identifier.isToken_iff.mp (spellable.names segment member isName)
    refine ⟨path.mpr ⟨spellable.rules, names⟩, ?_⟩
    intro target renamed
    have ⟨isToken, allowed⟩ := spellable.target target renamed
    have word := Identifier.isToken_iff.mp isToken
    refine ⟨?_, word, (Segment.isRenameTarget_iff word).mpr allowed⟩
    rw [← Bool.not_eq_true]
    intro isGlob
    rw [spellable.glob isGlob] at renamed
    cases renamed

end Leaf

/-! ## Trees -/

namespace Tree

/-- Whether no group of a tree is empty, and no stem of a group is. -/
inductive Grouped : Tree → Prop
  | leaf (item : Leaf) : Grouped (.leaf item)
  | group {stem : Path} {children : List Tree} (stemNonempty : stem ≠ []) (nonempty : children ≠ [])
      (grouped : ∀ child ∈ children, Grouped child) : Grouped (.group stem children)

/-- Whether each leaf of a tree has a segment of its own, behind the stems of the groups around it. -/
inductive HasSegments : Tree → Prop
  | leaf {item : Leaf} (path : item.path ≠ []) : HasSegments (.leaf item)
  | group (stem : Path) {children : List Tree} (each : ∀ child ∈ children, HasSegments child) :
      HasSegments (.group stem children)

theorem Grouped.regular {tree : Tree} (grouped : tree.Grouped) (segments : tree.HasSegments) :
    tree.Regular := by
  induction grouped with
  | leaf item =>
      cases segments with
      | leaf path => exact .leaf path
  | group stemNonempty nonempty _ induction =>
      cases segments with
      | group _ each =>
          exact .group stemNonempty nonempty fun child member => induction child member (each child member)

theorem renders_eq_of_forall {trees : List Tree}
    (rendered : ∀ tree ∈ trees, tree.render = .ok tree.source) :
    renders trees = .ok (sources trees) := by
  induction trees with
  | nil => rfl
  | cons tree rest induction =>
      have parts := List.forall_mem_cons.mp rendered
      rw [renders, parts.1, induction parts.2]
      rfl

theorem renders_eq_of_exists {trees : List Tree}
    (each : ∀ tree ∈ trees, tree.render = .ok tree.source ∨ tree.render = .error .noSegment)
    (failed : ∃ tree ∈ trees, tree.render = .error .noSegment) :
    renders trees = .error .noSegment := by
  induction trees with
  | nil =>
      rcases failed with ⟨tree, member, _⟩
      cases member
  | cons first rest induction =>
      have parts := List.forall_mem_cons.mp each
      rcases parts.1 with rendered | refused
      · have behind : ∃ tree ∈ rest, tree.render = .error .noSegment := by
          rw [List.exists_mem_cons_iff, rendered] at failed
          exact failed.resolve_left nofun
        rw [renders, rendered, induction parts.2 behind]
        rfl
      · rw [renders, refused]
        rfl

/-- A tree is printed if each of its leaves has a segment of its own, and refused if one has none. -/
theorem Grouped.render_eq {tree : Tree} (grouped : tree.Grouped) :
    (tree.HasSegments → tree.render = .ok tree.source) ∧
      (¬tree.HasSegments → tree.render = .error .noSegment) := by
  induction grouped with
  | leaf item =>
      constructor
      · intro segments
        cases segments with
        | leaf path => exact if_neg path
      · intro none
        exact if_pos (not_not.mp fun path => none (.leaf path))
  | @group stem children _ _ _ induction =>
      constructor
      · intro segments
        cases segments with
        | group _ each =>
            have rendered : ∀ child ∈ children, child.render = .ok child.source := fun child member =>
              (induction child member).1 (each child member)
            rw [render, renders_eq_of_forall rendered]
            rfl
      · intro none
        have failed : ∃ child ∈ children, child.render = .error .noSegment := by
          by_contra all
          push Not at all
          exact none (.group stem fun child member =>
            not_not.mp fun without => all child member ((induction child member).2 without))
        have each : ∀ child ∈ children,
            child.render = .ok child.source ∨ child.render = .error .noSegment := fun child member =>
          (em child.HasSegments).imp (induction child member).1 (induction child member).2
        rw [render, renders_eq_of_exists each failed]
        rfl

/-- However a tree is grouped, if each of its leaves has a segment of its own, its text is read as one
statement, and this expands to the leaves of the tree. A leaf without one cannot be printed, since nothing
stands behind the stems that its full path consists of. -/
theorem exists_parse_render {tree : Tree} (grouped : tree.Grouped) (valid : tree.IsValid)
    (spellable : ∀ leaf ∈ tree.leaves, leaf.metadata = {} ∧ leaf.IsSpellable)
    (fragment : Option Int) :
    (tree.HasSegments → ∃ text statement, tree.render = .ok text ∧
      Statement.parse ("use " ++ text ++ ";") fragment = .ok [statement] ∧
      ∃ trees, statement.expand = .ok trees ∧
        ∀ leaf, leaf ∈ allLeaves trees ↔ leaf ∈ tree.leaves) ∧
    (¬tree.HasSegments → tree.render = .error .noSegment) := by
  refine ⟨fun segments => ?_, grouped.render_eq.2⟩
  have legal : ∀ leaf ∈ tree.leaves, leaf.Legal ∧ leaf.metadata = {} := fun leaf member =>
    ⟨(Leaf.legal_iff_isSpellable (valid.path leaf member)).mpr (spellable leaf member).2,
      (spellable leaf member).1⟩
  rcases (grouped.regular segments).exists_parse legal fragment with
    ⟨statement, parsed, found, success, members⟩
  rcases Statement.exists_expand ⟨found, success⟩ with ⟨trees, expanded, gives⟩
  refine ⟨tree.source, statement, grouped.render_eq.1 segments, parsed, trees, expanded, fun leaf => ?_⟩
  rw [gives, UseTree.gives_iff success, members]

theorem exists_parse_render_self_super :
    let tree : Tree := .group [.self]
      [.group [.super] [.leaf ⟨[.self], some "_", {}⟩], .leaf ⟨[.name "b", .glob], none, {}⟩]
    tree.render = .ok "self::\x7bb::*, super::\x7bself as _\x7d\x7d" ∧ ∃ statement,
      Statement.parse "use self::\x7bb::*, super::\x7bself as _\x7d\x7d;" (some 0) =
        .ok [statement] ∧
      ∃ trees, statement.expand = .ok trees ∧ ∀ leaf, leaf ∈ allLeaves trees ↔
        leaf ∈ [⟨[.self, .super, .self], some "_", {}⟩, ⟨[.self, .name "b", .glob], none, {}⟩] := by
  intro tree
  have grouped : tree.Grouped := by
    refine .group (by decide) (by simp) (List.forall_mem_cons.mpr ⟨?_, ?_⟩)
    · exact .group (by decide) (by simp) (List.forall_mem_singleton.mpr (.leaf _))
    · exact List.forall_mem_singleton.mpr (.leaf _)
  have valid : tree.IsValid := by
    refine .group (by decide) (List.forall_mem_cons.mpr ⟨?_, ?_⟩)
    · exact .group (by decide) (List.forall_mem_singleton.mpr (.leaf (by decide)))
    · exact List.forall_mem_singleton.mpr (.leaf (by decide))
  have segments : tree.HasSegments := by
    refine .group _ (List.forall_mem_cons.mpr ⟨?_, ?_⟩)
    · exact .group _ (List.forall_mem_singleton.mpr (.leaf (by decide)))
    · exact List.forall_mem_singleton.mpr (.leaf (by decide))
  have rendered : tree.render = .ok "self::\x7bb::*, super::\x7bself as _\x7d\x7d" := by cbv
  rcases (exists_parse_render grouped valid (by decide) (some 0)).1 segments with
    ⟨text, statement, printed, parsed, trees, expanded, members⟩
  rw [rendered] at printed
  cases printed
  exact ⟨rendered, statement, parsed, trees, expanded, members⟩

/-- A leaf whose full path is the stem of the group around it. -/
theorem not_exists_parse_render_stem :
    ¬∀ tree : Tree, tree.Grouped → tree.IsValid →
      (∀ leaf ∈ tree.leaves, leaf.metadata = {} ∧ leaf.IsSpellable) →
      ∃ text statement, tree.render = .ok text ∧
        Statement.parse ("use " ++ text ++ ";") (some 0) = .ok [statement] ∧
        ∃ trees, statement.expand = .ok trees ∧
          ∀ leaf, leaf ∈ allLeaves trees ↔ leaf ∈ tree.leaves := by
  intro claim
  have grouped : Grouped (.group [.name "a"] [.leaf ⟨[], none, {}⟩]) :=
    .group (by decide) (by decide) (List.forall_mem_singleton.mpr (.leaf _))
  have valid : IsValid (.group [.name "a"] [.leaf ⟨[], none, {}⟩]) :=
    .group (by decide) (List.forall_mem_singleton.mpr (.leaf (by decide)))
  rcases claim _ grouped valid (by decide) with ⟨text, _, rendered, _⟩
  cases rendered

end Tree

end ImportBlock
