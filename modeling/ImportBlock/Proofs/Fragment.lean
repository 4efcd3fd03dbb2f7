import ImportBlock.Proofs.Assembly
import ImportBlock.Proofs.Merge.Stitch
import ImportBlock.Proofs.ReadBack
import ImportBlock.Proofs.Statement.Refusal
import Mathlib

/-! The fragments of an assembly one by one. Whether a fragment is at fault shows when it is read alone.
In an assembly its place is all that is added: the first fragment at fault is the one that is reported,
whatever numbers the statements of a fragment carry. -/

namespace ImportBlock

section

variable {α β ε : Type}

theorem exists_of_bind_eq_error {first : Except ε α} {next : α → Except ε β} {error : ε}
    (failed : (first >>= next) = .error error) :
    first = .error error ∨ ∃ value, first = .ok value ∧ next value = .error error := by
  cases first with
  | error _ =>
      cases failed
      exact .inl rfl
  | ok value => exact .inr ⟨value, rfl, failed⟩

theorem exists_mapM {f : α → Except ε β} {items : List α}
    (each : ∀ item ∈ items, ∃ result, f item = .ok result) :
    ∃ results, items.mapM f = .ok results := by
  induction items with
  | nil => exact ⟨[], rfl⟩
  | cons item rest induction =>
      have parts := List.forall_mem_cons.mp each
      rcases parts.1 with ⟨result, here⟩
      rcases induction parts.2 with ⟨results, later⟩
      refine ⟨result :: results, ?_⟩
      rw [List.mapM_cons, here, later]
      rfl

theorem mapM_eq_error {f : α → Except ε β} {front back : List α} {item : α} {error : ε}
    (before : ∀ other ∈ front, ∃ result, f other = .ok result) (failed : f item = .error error) :
    (front ++ item :: back).mapM f = .error error := by
  rcases exists_mapM before with ⟨results, formed⟩
  rw [List.mapM_append, formed, List.mapM_cons, failed]
  rfl

end

/-! ## The fragment of an error -/

theorem Statement.fragment_of_parse {text : String} {fragment : Option Int} {error : SyntaxError}
    (failed : parse text fragment = .error error) : error.fragment = fragment := by
  rw [parse_eq] at failed
  rcases Backlog.fails_of_readAll (fun _ member => TokenStream.isRead_of_mem_tokens member) failed with
    ⟨_, _, _, rfl, _⟩
  rfl

theorem Statement.fragment_of_expand {statement : Statement} {error : SyntaxError}
    (failed : statement.expand = .error error) : error.fragment = statement.fragment := by
  rcases exists_of_bind_eq_error failed with expanding | ⟨_, _, ordered⟩
  · unfold leaves at expanding
    split at expanding
    · cases expanding
    · cases expanding
      rfl
  · cases ordered

namespace Forest

variable {statements : List Statement} {number : Int} {error : SyntaxError}

theorem fragment_of_expandAll (failed : expandAll (some number) statements = .error error) :
    error.fragment = some number := by
  induction statements with
  | nil => cases failed
  | cons statement rest induction =>
      rcases exists_of_bind_eq_error failed with here | ⟨trees, _, failed⟩
      · exact Statement.fragment_of_expand here
      · rcases exists_of_bind_eq_error failed with later | ⟨_, _, joined⟩
        · exact induction later
        · cases joined

theorem fragment_of_ofStatements (failed : ofStatements statements (some number) = .error error) :
    error.fragment = some number := by
  rcases exists_of_bind_eq_error failed with expanding | ⟨_, _, formed⟩
  · exact fragment_of_expandAll expanding
  · cases formed

theorem exists_ofStatements_again {fragment : Option Int} {forest : Forest}
    (formed : ofStatements statements fragment = .ok forest) (fragment' : Option Int) :
    ∃ forest', ofStatements statements fragment' = .ok forest' := by
  rcases @exists_ofStatements _ statements Statement.content _ rfl (of_ofStatements formed).1
    fragment' with ⟨forest', formed', _⟩
  exact ⟨forest', formed'⟩

theorem ofText_of_parse {text : String} {fragment : Option Int} {statements : List Statement}
    (accepted : Statement.parse text fragment = .ok statements) (number : Int) :
    ofText text (some number) = ofStatements statements (some number) := by
  rcases Statement.exists_parse_again accepted (some number) with ⟨others, accepted', contents⟩
  rw [ofText, accepted']
  exact ofStatements_congr contents number

theorem exists_ofText_again {text : String} {fragment : Option Int} {forest : Forest}
    (formed : ofText text fragment = .ok forest) (fragment' : Option Int) :
    ∃ forest', ofText text fragment' = .ok forest' := by
  rcases exists_of_bind_eq_ok formed with ⟨statements, accepted, formed⟩
  rcases Statement.exists_parse_again accepted fragment' with ⟨others, accepted', contents⟩
  rcases exists_ofStatements contents (of_ofStatements formed).1 fragment' with
    ⟨forest', formed', _⟩
  refine ⟨forest', ?_⟩
  rw [ofText, accepted']
  exact formed'

theorem path_ne_nil_of_ofStatements {fragment : Option Int} {forest : Forest}
    (formed : ofStatements statements fragment = .ok forest) :
    ∀ leaf ∈ forest.leaves, leaf.path ≠ [] := by
  intro leaf member
  rcases ((of_ofStatements formed).2 leaf).mp member with ⟨_, _, _, success, inside⟩
  exact (UseTree.legal_of_isClean Path.allBehind_nil success leaf inside).1.1

end Forest

theorem Leaf.path_canonical_ne_nil {leaf : Leaf} (nonempty : leaf.path ≠ []) :
    leaf.canonical.path ≠ [] := by
  rcases dropSelf_cases leaf.path with equal | ⟨_, _, _, _, _, _, equal⟩
  · rwa [canonical, equal]
  · rw [canonical, equal]
    simp

/-! ## Fragments alone -/

namespace Fragment

/-- The trees that a fragment gives where no number is assigned to it. -/
def alone : Fragment → Except SyntaxError Forest
  | .text source => Forest.ofText source
  | .statements items => Forest.ofStatements items
  | .forest given => .ok given

def Fails (fragment : Fragment) : Prop := ∃ error, fragment.alone = .error error

/-- Whether a fragment is a text or a list of statements. -/
def IsSource : Fragment → Prop
  | .text _ => True
  | .statements _ => True
  | .forest _ => False

variable {fragment : Fragment} {number : Int}

theorem exists_toForest (fails : ¬fragment.Fails) (number : Int) :
    ∃ forest, fragment.toForest number = .ok forest := by
  cases formed : fragment.alone with
  | error error => exact absurd ⟨error, formed⟩ fails
  | ok forest =>
      cases fragment with
      | text source => exact Forest.exists_ofText_again formed _
      | statements items => exact Forest.exists_ofStatements_again formed _
      | forest given => exact ⟨given, rfl⟩

theorem Fails.exists_toForest (fails : fragment.Fails) (number : Int) :
    ∃ error, fragment.toForest number = .error error ∧ error.fragment = some number := by
  rcases fails with ⟨error, failed⟩
  cases fragment with
  | text source =>
      cases formed : Forest.ofText source (some number) with
      | ok forest =>
          rcases Forest.exists_ofText_again formed (some 0) with ⟨_, formed'⟩
          rw [alone, formed'] at failed
          cases failed
      | error error' =>
          refine ⟨error', formed, ?_⟩
          rcases exists_of_bind_eq_error formed with refused | ⟨statements, _, refused⟩
          · exact Statement.fragment_of_parse refused
          · exact Forest.fragment_of_ofStatements refused
  | statements items =>
      cases formed : Forest.ofStatements items (some number) with
      | ok forest =>
          rcases Forest.exists_ofStatements_again formed none with ⟨_, formed'⟩
          rw [alone, formed'] at failed
          cases failed
      | error error' => exact ⟨error', formed, Forest.fragment_of_ofStatements formed⟩
  | forest given => cases failed

theorem path_ne_nil_of_toForest (source : fragment.IsSource) {forest : Forest}
    (formed : fragment.toForest number = .ok forest) :
    ∀ leaf ∈ forest.leaves, leaf.path ≠ [] := by
  cases fragment with
  | text text =>
      rcases exists_of_bind_eq_ok formed with ⟨statements, _, formed⟩
      exact Forest.path_ne_nil_of_ofStatements formed
  | statements items => exact Forest.path_ne_nil_of_ofStatements formed
  | forest given => exact source.elim

end Fragment

/-! ## Assemblies -/

namespace Assembly

variable {assembly : Assembly}

theorem zipIdx_middle {α : Type} (front : List α) (item : α) (back : List α) :
    (front ++ item :: back).zipIdx =
      front.zipIdx ++ (item, front.length) :: back.zipIdx (front.length + 1) := by
  rw [List.zipIdx_append, List.zipIdx_cons, Nat.zero_add]

theorem forests_eq_error {front : List Fragment} {fragment : Fragment} {back : List Fragment}
    (fragments : assembly.fragments = front ++ fragment :: back)
    (before : ∀ other ∈ front, ¬other.Fails) (fails : fragment.Fails) :
    ∃ error, assembly.forests = .error error ∧ error.fragment = some (front.length : Int) := by
  rcases fails.exists_toForest front.length with ⟨error, failed, number⟩
  refine ⟨error, ?_, number⟩
  rw [forests, fragments, zipIdx_middle]
  apply @mapM_eq_error _ _ _ (fun pair : Fragment × Nat => pair.1.toForest pair.2) _ _ _ _ _ failed
  intro other member
  exact Fragment.exists_toForest (before other.1 (List.fst_mem_of_mem_zipIdx member)) other.2

theorem exists_forests (fails : ∀ fragment ∈ assembly.fragments, ¬fragment.Fails) :
    ∃ forests, assembly.forests = .ok forests := by
  apply exists_mapM
  intro fragment member
  exact Fragment.exists_toForest (fails fragment.1 (List.fst_mem_of_mem_zipIdx member)) fragment.2

theorem path_ne_nil_of_forests (sources : ∀ fragment ∈ assembly.fragments, fragment.IsSource)
    {forests : List Forest} (formed : assembly.forests = .ok forests) :
    ∀ leaf ∈ Forest.imports forests, leaf.path ≠ [] := by
  intro leaf member
  rcases List.mem_flatMap.mp member with ⟨forest, inside, given⟩
  rcases List.mem_map.mp given with ⟨spelled, lies, rfl⟩
  rcases exists_of_mem_mapM formed forest inside with ⟨⟨fragment, number⟩, numbered, formed⟩
  have source := sources fragment (List.fst_mem_of_mem_zipIdx numbered)
  exact Leaf.path_canonical_ne_nil (Fragment.path_ne_nil_of_toForest source formed spelled lies)

theorem forests_statements {config : Config} {front back : List Fragment} {source : String}
    {number : Option Int} {statements : List Statement}
    (accepted : Statement.parse source number = .ok statements) :
    forests ⟨config, front ++ .statements statements :: back⟩ =
      forests ⟨config, front ++ .text source :: back⟩ := by
  have same : (Fragment.statements statements).toForest front.length =
      (Fragment.text source).toForest front.length :=
    (Forest.ofText_of_parse accepted front.length).symm
  simp only [forests, zipIdx_middle, List.mapM_append, List.mapM_cons, same]

theorem regular_of_merge (sources : ∀ fragment ∈ assembly.fragments, fragment.IsSource)
    {merged : MergedSet} (success : assembly.merge = .ok merged) :
    ∀ item ∈ merged.items assembly.config.granularity, item.tree.Regular := by
  rcases exists_of_merge success with ⟨forests, formed, merging⟩
  apply MergedSet.regular_of_mem_items
  intro leaf member
  exact path_ne_nil_of_forests sources formed leaf
    (MergedSet.mem_imports_of_mem_leaves merging member)

/-- What assembling sources comes to. Every import has a path, and so every item a first segment, which is
all that could be missing. If fragments fail alone, the error is one of the first of them and carries its
place; if none does, only a conflict can stop the merge. A text that is accepted counts as its
statements. -/
theorem build_intoItems_of_fragments (config : Config) (fragments : List Fragment)
    (sources : ∀ fragment ∈ fragments, fragment.IsSource) :
    (∀ formed, forests ⟨config, fragments⟩ = .ok formed →
      ∀ leaf ∈ Forest.imports formed, leaf.path ≠ []) ∧
    (∀ merged, merge ⟨config, fragments⟩ = .ok merged →
      ∀ item ∈ merged.items config.granularity, item.tree.Regular) ∧
    (∀ front fragment back, fragments = front ++ fragment :: back →
      (∀ other ∈ front, ¬other.Fails) → fragment.Fails →
        ∃ error : SyntaxError, error.fragment = some (front.length : Int) ∧
          build ⟨config, fragments⟩ = .ofFailure "build" (.syntactic error) ∧
          intoItems ⟨config, fragments⟩ = .ofFailure "into_items" (.syntactic error)) ∧
    ((∀ fragment ∈ fragments, ¬fragment.Fails) →
      (∃ conflict, build ⟨config, fragments⟩ = .ofFailure "build" (.conflict conflict) ∧
        intoItems ⟨config, fragments⟩ = .ofFailure "into_items" (.conflict conflict)) ∨
      (build ⟨config, fragments⟩).failure = none ∧
        (intoItems ⟨config, fragments⟩).failure = none) ∧
    (∀ front source back number statements, fragments = front ++ .text source :: back →
      Statement.parse source number = .ok statements →
        build ⟨config, front ++ .statements statements :: back⟩ = build ⟨config, fragments⟩ ∧
        intoItems ⟨config, front ++ .statements statements :: back⟩ =
          intoItems ⟨config, fragments⟩) := by
  refine ⟨?_, ?_, ?_, ?_, ?_⟩
  · intro formed success
    exact path_ne_nil_of_forests sources success
  · intro merged success
    exact regular_of_merge sources success
  · intro front fragment back split before fails
    rcases @forests_eq_error ⟨config, fragments⟩ _ _ _ split before fails with
      ⟨error, failed, number⟩
    have merging : merge ⟨config, fragments⟩ = .error (.syntactic error) := by rw [merge, failed]
    exact ⟨error, number, reports_of_merge_eq_error merging⟩
  · intro fails
    rcases @exists_forests ⟨config, fragments⟩ fails with ⟨forests, formed⟩
    cases merging : MergedSet.merge forests config.absorbUnaliased with
    | error conflict =>
        left
        have merging : merge ⟨config, fragments⟩ = .error (.conflict conflict) := by
          rw [merge, formed]
          simp only [merging]
        exact ⟨conflict, reports_of_merge_eq_error merging⟩
    | ok merged =>
        right
        have merging : merge ⟨config, fragments⟩ = .ok merged := by
          rw [merge, formed]
          simp only [merging]
        rw [build, intoItems, merging]
        exact ⟨rfl, rfl⟩
  · intro front source back number statements split accepted
    have same : merge ⟨config, front ++ .statements statements :: back⟩ =
        merge ⟨config, fragments⟩ := by
      rw [split, merge, merge, forests_statements accepted]
    rw [build, build, intoItems, intoItems, same, merged, merged, split]
    simp

theorem build_intoItems_of_fragments_stale_number :
    ∃ error : SyntaxError, error.fragment = some 1 ∧
      build ⟨.default, [.text "use a::x; use b::x;",
        .statements [⟨.path "a" (.name "self"), {}, some 7, none⟩], .text "use"]⟩ =
          .ofFailure "build" (.syntactic error) ∧
      intoItems ⟨.default, [.text "use a::x; use b::x;",
        .statements [⟨.path "a" (.name "self"), {}, some 7, none⟩], .text "use"]⟩ =
          .ofFailure "into_items" (.syntactic error) := by
  have formed : Fragment.alone (.text "use a::x; use b::x;") = .ok ⟨0,
      [.leaf ⟨[.name "a", .name "x"], none, {}⟩, .leaf ⟨[.name "b", .name "x"], none, {}⟩]⟩ := by
    cbv
  have failed : Fragment.alone (.statements [⟨.path "a" (.name "self"), {}, some 7, none⟩]) =
      .error { fault := .path (.selfOutsideGroup "a"), fragment := some 7 } := by
    cbv
  have assembled := build_intoItems_of_fragments .default [.text "use a::x; use b::x;",
    .statements [⟨.path "a" (.name "self"), {}, some 7, none⟩], .text "use"]
    (by simp [Fragment.IsSource])
  apply assembled.2.2.1 [.text "use a::x; use b::x;"] _ [.text "use"] rfl _ ⟨_, failed⟩
  intro other member fails
  rcases fails with ⟨error, refused⟩
  rw [List.mem_singleton.mp member, formed] at refused
  cases refused

end Assembly

end ImportBlock
