import ImportBlock.Config.Basic
import ImportBlock.Proofs.Fragment
import ImportBlock.Proofs.Legality
import ImportBlock.Proofs.RoundTrip
import Mathlib

/-! The names that a configuration can list, and the names that a path can begin with. The underscore
is the only name that can be listed although no path begins with it. -/

namespace ImportBlock

/-! ## Names at the beginning of a path -/

theorem Segment.isValid_of_check {before : Path} {last inGroup : Bool} {word : String}
    {segment : Segment} (checked : check before last inGroup word = .ok segment) :
    segment.isValid = true := by
  rcases check_eq_ok_iff.mp checked with ⟨rfl, _, stands⟩
  by_cases isName : (ofText word).kind = .name
  · simpa only [MayStand, isName] using stands
  · exact isValid_ofText isName

theorem Segment.check_of_isValid {text : String} (valid : (name text).isValid = true) :
    check [] true false text = .ok (name text) := by
  refine check_eq_ok_iff.mpr ⟨(ofText_text valid).symm, ?_, valid⟩
  rintro rfl
  revert valid
  decide

theorem Path.IsValid.concat {path : Path} (valid : path.IsValid) {last : Segment}
    (validLast : last.isValid = true) : IsValid (path ++ [last]) := by
  intro segment member
  rcases List.mem_append.mp member with inside | final
  · exact valid segment inside
  · rwa [List.mem_singleton.mp final]

namespace UseTree

variable {metadata : Metadata}

mutual
/-- Whatever words a tree is made of, what it expands to has valid segments only. -/
theorem isValid_of_leaves : ∀ {tree : UseTree} {before : Path}, before.IsValid →
    ∀ {inGroup : Bool} {found : List Leaf}, tree.leaves metadata before inGroup = .ok found →
      ∀ leaf ∈ found, leaf.path.IsValid
  | .name word, before, valid, inGroup, found, success => by
      rw [leaves] at success
      rcases exists_of_bind_eq_ok success with ⟨segment, checked, equal⟩
      cases equal
      intro leaf member
      rw [List.mem_singleton.mp member]
      exact valid.concat (Segment.isValid_of_check checked)
  | .rename word target, before, valid, inGroup, found, success => by
      rw [leaves] at success
      rcases exists_of_bind_eq_ok success with ⟨segment, checked, success⟩
      split at success
      · cases success
        intro leaf member
        rw [List.mem_singleton.mp member]
        exact valid.concat (Segment.isValid_of_check checked)
      · cases success
  | .glob, before, valid, inGroup, found, success => by
      rw [leaves] at success
      split at success
      · cases success
      · cases success
        intro leaf member
        rw [List.mem_singleton.mp member]
        exact valid.concat rfl
  | .path word rest, before, valid, inGroup, found, success => by
      rw [leaves] at success
      rcases exists_of_bind_eq_ok success with ⟨segment, checked, success⟩
      exact isValid_of_leaves (valid.concat (Segment.isValid_of_check checked)) success
  | .group items, before, valid, inGroup, found, success => by
      rw [leaves] at success
      exact isValid_of_allLeaves valid success
  | .foreign value, before, valid, inGroup, found, success => by
      cases success

theorem isValid_of_allLeaves : ∀ {items : List UseTree} {before : Path}, before.IsValid →
    ∀ {found : List Leaf}, allLeaves metadata before items = .ok found →
      ∀ leaf ∈ found, leaf.path.IsValid
  | [], before, valid, found, success => by
      cases success
      exact List.forall_mem_nil _
  | tree :: rest, before, valid, found, success => by
      rw [allLeaves] at success
      rcases exists_of_bind_eq_ok success with ⟨first, here, success⟩
      rcases exists_of_bind_eq_ok success with ⟨others, later, success⟩
      cases success
      intro leaf member
      rcases List.mem_append.mp member with inside | behind
      · exact isValid_of_leaves valid here leaf inside
      · exact isValid_of_allLeaves valid later leaf behind
end

end UseTree

namespace Statement

/-- Whether a tree of some statement begins with a segment. -/
def CanBegin (root : Segment) : Prop :=
  ∃ (statement : Statement) (trees : List Tree), statement.expand = .ok trees ∧
    ∃ tree ∈ trees, tree.root? = some root

theorem regular_of_expand {statement : Statement} {trees : List Tree}
    (expanded : statement.expand = .ok trees) : ∀ tree ∈ trees, tree.Regular := by
  rcases expands_of_expand expanded with ⟨found, spelled⟩
  have given := UseTree.legal_of_isClean Path.allBehind_nil spelled
  rw [expand, leaves, spelled] at expanded
  cases expanded
  intro tree member
  refine Tree.regular_of_mem_factorTo ?_ tree ((List.mergeSort_perm _ _).mem_iff.mp member)
  intro leaf inside
  exact (given leaf (List.mem_eraseDups.mp inside)).1.1

theorem isValid_of_expand {statement : Statement} {trees : List Tree}
    (expanded : statement.expand = .ok trees) :
    ∀ leaf ∈ Tree.allLeaves trees, leaf.path.IsValid := by
  rcases allLeaves_perm_of_expand expanded with ⟨found, spelled, perm⟩
  intro leaf member
  exact UseTree.isValid_of_leaves (List.forall_mem_nil _) spelled leaf
    (List.mem_eraseDups.mp (perm.mem_iff.mp member))

theorem canBegin_name_iff (name : String) :
    CanBegin (.name name) ↔ (Segment.name name).isValid = true := by
  constructor
  · intro begins
    rcases begins with ⟨statement, trees, expanded, tree, member, begins⟩
    have regular := regular_of_expand expanded tree member
    rcases regular.exists_root with ⟨root, begins', heads⟩
    rcases regular.exists_leaf with ⟨leaf, inside, _⟩
    cases begins.symm.trans begins'
    exact isValid_of_expand expanded leaf (Tree.mem_allLeaves.mpr ⟨tree, member, inside⟩) _
      (List.mem_of_head? (heads leaf inside))
  · intro valid
    have spelled : (UseTree.name name).leaves {} [] false = .ok [⟨[.name name], none, {}⟩] := by
      rw [UseTree.leaves, Segment.check_of_isValid valid]
      rfl
    rcases @exists_expand ⟨.name name, {}, none, none⟩ ⟨_, spelled⟩ with ⟨trees, expanded, gives⟩
    have found := (gives _).mpr ((UseTree.gives_iff spelled).mpr (List.mem_singleton_self _))
    rcases Tree.mem_allLeaves.mp found with ⟨tree, member, inside⟩
    rcases (regular_of_expand expanded tree member).exists_root with ⟨root, begins, heads⟩
    cases heads _ inside
    exact ⟨_, trees, expanded, tree, member, begins⟩

end Statement

/-! ## Names of crates -/

namespace Identifier

theorem isBlank_of_starts {c : Char} (start : starts c = true) : Text.isBlank c = false := by
  have blanks : Text.blanks.all (fun blank => !starts blank) = true := by decide
  rw [Text.isBlank, ← Bool.not_eq_true, List.contains_iff_mem]
  intro member
  have other := List.all_eq_true.mp blanks c member
  rw [start] at other
  cases other

theorem exists_not_blank_of_accepts {text : List Char} (accepted : accepts text = true) :
    ∃ c ∈ text, Text.isBlank c = false := by
  unfold accepts at accepted
  split at accepted
  · exact ⟨'r', List.mem_cons_self, by decide⟩
  · cases text with
    | nil => cases accepted
    | cons first rest =>
        exact ⟨first, List.mem_cons_self, isBlank_of_starts (Bool.and_eq_true_iff.mp accepted).1⟩

end Identifier

namespace Config

/-- Whether a name can be the name of a crate: an identifier that is no keyword of paths. -/
def IsCrateName (name : String) : Prop :=
  Identifier.accepts name.toList = true ∧ Identifier.isPathKeyword name = false

instance (name : String) : Decidable (IsCrateName name) :=
  inferInstanceAs (Decidable (_ ∧ _))

theorem isCrateName_iff (name : String) :
    IsCrateName name ↔ (Segment.name name).isValid = true ∨ name = "_" := by
  by_cases blank : name = "_"
  · rw [blank]
    decide
  · simp [IsCrateName, Segment.isValid, Segment.name, SegmentKind.marker?, blank]

theorem checkName_eq_ok_iff {value : Value} {name : String} :
    checkName value = .ok name ↔ value = .string name ∧ IsCrateName name := by
  cases value with
  | string text =>
      have visible : Identifier.accepts text.toList = true →
          text.toList.all Text.isBlank = false := by
        intro accepted
        rcases Identifier.exists_not_blank_of_accepts accepted with ⟨c, member, notBlank⟩
        rw [← Bool.not_eq_true, List.all_eq_true]
        intro blank
        rw [blank c member] at notBlank
        cases notBlank
      unfold checkName IsCrateName
      grind
  | _ => simp [checkName]

/-! ## Sets of names -/

theorem mem_nameSet {names : List String} {name : String} : name ∈ nameSet names ↔ name ∈ names := by
  rw [nameSet, List.mem_mergeSort, List.mem_eraseDups]

theorem nameSet_congr {left right : List String} (same : ∀ name, name ∈ left ↔ name ∈ right) :
    nameSet left = nameSet right := by
  have sorted : ∀ names : List String,
      (names.mergeSort fun one other => one ≤ other).Pairwise fun one other => one ≤ other := by
    intro names
    refine (List.pairwise_mergeSort ?_ ?_ names).imp of_decide_eq_true
    · intro one middle other before behind
      exact decide_eq_true (String.le_trans (of_decide_eq_true before) (of_decide_eq_true behind))
    · intro one other
      simpa using String.le_total one other
  have perm := (List.mergeSort_perm left.eraseDups fun one other => one ≤ other).trans
    ((eraseDups_perm same).trans
      (List.mergeSort_perm right.eraseDups fun one other => one ≤ other).symm)
  exact perm.eq_of_pairwise (fun _ _ _ _ => String.le_antisymm) (sorted _) (sorted _)

theorem mapM_checkName_eq_ok_iff {values : List Value} {names : List String} :
    values.mapM checkName = .ok names ↔
      values = names.map .string ∧ ∀ name ∈ names, IsCrateName name := by
  induction values generalizing names with
  | nil =>
      constructor
      · intro success
        cases success
        exact ⟨rfl, nofun⟩
      · rintro ⟨none, _⟩
        rw [List.map_eq_nil_iff.mp none.symm]
        rfl
  | cons value rest induction =>
      rw [List.mapM_cons]
      constructor
      · intro success
        rcases exists_of_bind_eq_ok success with ⟨name, here, success⟩
        rcases exists_of_bind_eq_ok success with ⟨others, later, equal⟩
        cases equal
        rcases checkName_eq_ok_iff.mp here with ⟨rfl, isName⟩
        rcases induction.mp later with ⟨rfl, areNames⟩
        exact ⟨rfl, List.forall_mem_cons.mpr ⟨isName, areNames⟩⟩
      · rintro ⟨equal, areNames⟩
        cases names with
        | nil => cases equal
        | cons name others =>
            cases equal
            have parts := List.forall_mem_cons.mp areNames
            rw [checkName_eq_ok_iff.mpr ⟨rfl, parts.1⟩, induction.mpr ⟨rfl, parts.2⟩]
            rfl

theorem checkNames_eq_ok_iff {key : String} {values : List Value} {names : List String} :
    checkNames key values = .ok names ↔
      ∃ listed : List String, values = listed.map .string ∧ (∀ name ∈ listed, IsCrateName name) ∧
        names = nameSet listed := by
  constructor
  · intro success
    unfold checkNames at success
    split at success
    · next listed checked =>
        cases success
        rcases mapM_checkName_eq_ok_iff.mp checked with ⟨strings, areNames⟩
        exact ⟨listed, strings, areNames, rfl⟩
    · cases success
  · rintro ⟨listed, strings, areNames, rfl⟩
    rw [checkNames, mapM_checkName_eq_ok_iff.mpr ⟨strings, areNames⟩]

theorem exists_checkNames_eq_ok_iff {key : String} {values : List Value} :
    (∃ names, checkNames key values = .ok names) ↔
      ∀ value ∈ values, ∃ name, checkName value = .ok name := by
  constructor
  · intro accepted value member
    rcases accepted with ⟨names, accepted⟩
    rcases checkNames_eq_ok_iff.mp accepted with ⟨listed, rfl, areNames, _⟩
    rcases List.mem_map.mp member with ⟨name, inside, rfl⟩
    exact ⟨name, checkName_eq_ok_iff.mpr ⟨rfl, areNames name inside⟩⟩
  · intro each
    rcases exists_mapM each with ⟨listed, checked⟩
    exact ⟨nameSet listed, by rw [checkNames, checked]⟩

theorem exists_of_checkNames_eq_error {key : String} {values : List Value} {failure : ConfigFailure}
    (failed : checkNames key values = .error failure) : ∃ error, failure = .setting error := by
  unfold checkNames at failed
  split at failed
  · cases failed
  · cases failed
    exact ⟨_, rfl⟩

/-- Values can be listed as names exactly if each of them is a valid name or the underscore, and then
they are the names that are listed. Exactly the valid names are names that a path begins with, so the
underscore is the only name that is listed for nothing. -/
theorem checkNames_iff_isValid (key : String) (values : List Value) :
    ((∃ names, checkNames key values = .ok names) ↔ ∀ value ∈ values, ∃ name,
      value = .string name ∧ ((Segment.name name).isValid = true ∨ name = "_")) ∧
    (∀ names, checkNames key values = .ok names →
      ∀ name, name ∈ names ↔ Value.string name ∈ values) ∧
    ∀ name, Statement.CanBegin (.name name) ↔ (Segment.name name).isValid = true := by
  refine ⟨?_, ?_, Statement.canBegin_name_iff⟩
  · simp only [exists_checkNames_eq_ok_iff, checkName_eq_ok_iff, isCrateName_iff]
  · intro names accepted name
    rcases checkNames_eq_ok_iff.mp accepted with ⟨listed, rfl, _, rfl⟩
    rw [mem_nameSet, List.mem_map_of_injective fun _ _ => Value.string.inj]

theorem checkNames_iff_isValid_raw_name :
    (∃ names, checkNames "local_names" [.string "r#type"] = .ok names ∧ "r#type" ∈ names) ∧
      Statement.CanBegin (.name "r#type") := by
  rcases checkNames_iff_isValid "local_names" [.string "r#type"] with ⟨accepts, lists, begins⟩
  have valid : (Segment.name "r#type").isValid = true := by decide
  rcases accepts.mpr (List.forall_mem_singleton.mpr ⟨_, rfl, .inl valid⟩) with ⟨names, accepted⟩
  refine ⟨⟨names, accepted, ?_⟩, (begins _).mpr valid⟩
  exact (lists names accepted _).mpr (List.mem_singleton_self _)

theorem checkNames_underscore :
    checkNames "core_names" [.string "_"] = .ok ["_"] ∧ (Segment.name "_").isValid = false ∧
      ¬Statement.CanBegin (.name "_") := by
  refine ⟨?_, by decide, ?_⟩
  · cbv
  · rw [Statement.canBegin_name_iff]
    decide

end Config

end ImportBlock
