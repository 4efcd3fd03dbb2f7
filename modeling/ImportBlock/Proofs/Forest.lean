import ImportBlock.Forest
import ImportBlock.Proofs.Expansion
import ImportBlock.Proofs.WrittenItem

/-! The leaves of forests that come from texts: they are what the items of the text expand to, and
all of them are legal. -/

namespace ImportBlock

theorem Tree.mem_allLeaves_sorted {trees : List Tree} {leaf : Leaf} :
    leaf ∈ allLeaves (sorted trees) ↔ leaf ∈ allLeaves trees :=
  (allLeaves_perm (List.mergeSort_perm _ _)).mem_iff

/-- Whether a tree with some metadata expands to leaves, one of which is the given one. -/
def UseTree.Gives (metadata : Metadata) (tree : UseTree) (leaf : Leaf) : Prop :=
  ∃ found, tree.leaves metadata [] false = .ok found ∧ leaf ∈ found

def UseTree.Expands (metadata : Metadata) (tree : UseTree) : Prop :=
  ∃ found, tree.leaves metadata [] false = .ok found

theorem UseTree.gives_iff {metadata : Metadata} {tree : UseTree} {found : List Leaf}
    (success : tree.leaves metadata [] false = .ok found) {leaf : Leaf} :
    tree.Gives metadata leaf ↔ leaf ∈ found := by
  constructor
  · intro gives
    rcases gives with ⟨found', success', member⟩
    rw [success] at success'
    cases success'
    exact member
  · intro member
    exact ⟨found, success, member⟩

namespace Statement

theorem exists_expand {statement : Statement}
    (expands : statement.tree.Expands statement.metadata) :
    ∃ trees, statement.expand = .ok trees ∧
      ∀ leaf, leaf ∈ Tree.allLeaves trees ↔ statement.tree.Gives statement.metadata leaf := by
  rcases expands with ⟨found, success⟩
  refine ⟨Tree.sorted (Tree.factor found), ?_, ?_⟩
  · rw [expand, leaves, success]
    rfl
  · intro leaf
    rw [Tree.mem_allLeaves_sorted, Tree.mem_allLeaves_factor, UseTree.gives_iff success]

theorem expands_of_expand {statement : Statement} {trees : List Tree}
    (success : statement.expand = .ok trees) :
    statement.tree.Expands statement.metadata := by
  rcases exists_of_bind_eq_ok success with ⟨found, expanded, _⟩
  unfold leaves at expanded
  split at expanded
  · next found' equal => exact ⟨found', equal⟩
  · cases expanded

theorem allLeaves_perm_of_expand {statement : Statement} {trees : List Tree}
    (success : statement.expand = .ok trees) :
    ∃ found, statement.tree.leaves statement.metadata [] false = .ok found ∧
      (Tree.allLeaves trees).Perm found.eraseDups := by
  rcases expands_of_expand success with ⟨found, spelled⟩
  refine ⟨found, spelled, ?_⟩
  rw [expand, leaves, spelled] at success
  cases success
  exact (Tree.allLeaves_perm (List.mergeSort_perm _ _)).trans (Tree.allLeaves_factor_perm found)

theorem legal_of_expand {statement : Statement} (read : statement.tree.IsRead) {trees : List Tree}
    (success : statement.expand = .ok trees) :
    ∀ leaf ∈ Tree.allLeaves trees, leaf.Legal ∧ leaf.metadata = statement.metadata := by
  rcases allLeaves_perm_of_expand success with ⟨found, spelled, perm⟩
  intro leaf member
  have inside : leaf ∈ found := List.mem_eraseDups.mp (perm.mem_iff.mp member)
  exact UseTree.legal_of_leaves read Path.allBehind_nil spelled leaf inside

end Statement

theorem exists_of_map_eq {α β γ : Type} {left : List α} {right : List β} {f : α → γ} {g : β → γ}
    (same : left.map f = right.map g) {item : α} (member : item ∈ left) :
    ∃ other ∈ right, g other = f item :=
  List.mem_map.mp (same ▸ List.mem_map_of_mem member)

namespace Forest

theorem exists_expandAll {statements : List Statement}
    (expands : ∀ statement ∈ statements, statement.tree.Expands statement.metadata) :
    ∀ number : Option Int, ∃ found trees, expandAll number statements = .ok (found, trees) ∧
      ∀ leaf, leaf ∈ Tree.allLeaves trees ↔
        ∃ statement ∈ statements, statement.tree.Gives statement.metadata leaf := by
  induction statements with
  | nil =>
      intro number
      refine ⟨number, [], rfl, ?_⟩
      simp [Tree.allLeaves]
  | cons statement rest induction =>
      intro number
      have parts := List.forall_mem_cons.mp expands
      let known := number.or statement.fragment
      rcases @Statement.exists_expand { statement with fragment := known } parts.1 with
        ⟨trees, here, leaves⟩
      rcases induction parts.2 known with ⟨found, others, later, behind⟩
      refine ⟨found, trees ++ others, ?_, ?_⟩
      · rw [expandAll, here]
        change (expandAll known rest >>= _) = _
        rw [later]
        rfl
      · intro leaf
        rw [Tree.allLeaves_append, List.mem_append, leaves, behind]
        simp

theorem expands_of_expandAll {statements : List Statement} :
    ∀ {number : Option Int} {result : Option Int × List Tree},
      expandAll number statements = .ok result →
        ∀ statement ∈ statements, statement.tree.Expands statement.metadata := by
  induction statements with
  | nil => exact fun _ => nofun
  | cons statement rest induction =>
      intro number result success
      rcases exists_of_bind_eq_ok success with ⟨trees, here, success⟩
      rcases exists_of_bind_eq_ok success with ⟨others, later, _⟩
      rw [List.forall_mem_cons]
      have expands := @Statement.expands_of_expand
        { statement with fragment := number.or statement.fragment } trees here
      exact ⟨expands, induction later⟩

theorem exists_ofStatements {α : Type} {items : List α} {content : α → Metadata × UseTree}
    {statements : List Statement} (same : statements.map Statement.content = items.map content)
    (expands : ∀ item ∈ items, (content item).2.Expands (content item).1) (fragment : Option Int) :
    ∃ forest, ofStatements statements fragment = .ok forest ∧
      ∀ leaf, leaf ∈ forest.leaves ↔
        ∃ item ∈ items, (content item).2.Gives (content item).1 leaf := by
  have expands' : ∀ statement ∈ statements, statement.tree.Expands statement.metadata := by
    intro statement member
    rcases exists_of_map_eq same member with ⟨item, inside, equal⟩
    have expands := expands item inside
    rwa [equal] at expands
  rcases exists_expandAll expands' fragment with ⟨number, trees, expanded, leaves⟩
  refine ⟨⟨number.getD 0, trees⟩, ?_, ?_⟩
  · rw [ofStatements, expanded]
    rfl
  · intro leaf
    rw [Forest.leaves, leaves]
    constructor
    · intro given
      rcases given with ⟨statement, member, gives⟩
      rcases exists_of_map_eq same member with ⟨item, inside, equal⟩
      exact ⟨item, inside, by rwa [equal]⟩
    · intro given
      rcases given with ⟨item, member, gives⟩
      rcases exists_of_map_eq same.symm member with ⟨statement, inside, equal⟩
      rw [← equal] at gives
      exact ⟨statement, inside, gives⟩

theorem of_ofStatements {statements : List Statement} {fragment : Option Int} {forest : Forest}
    (success : ofStatements statements fragment = .ok forest) :
    (∀ statement ∈ statements, statement.tree.Expands statement.metadata) ∧
      ∀ leaf, leaf ∈ forest.leaves ↔
        ∃ statement ∈ statements, statement.tree.Gives statement.metadata leaf := by
  rcases exists_of_bind_eq_ok success with ⟨_, expanded, _⟩
  have expands := expands_of_expandAll expanded
  rcases @exists_ofStatements _ statements Statement.content _ rfl expands fragment with
    ⟨forest', success', leaves⟩
  rw [success] at success'
  cases success'
  exact ⟨expands, leaves⟩

/-- Only what statements say counts for their forest, if its number is given. -/
theorem ofStatements_congr {left right : List Statement}
    (same : left.map Statement.content = right.map Statement.content) (number : Int) :
    ofStatements left (some number) = ofStatements right (some number) := by
  have expanded : expandAll (some number) left = expandAll (some number) right := by
    induction left generalizing right with
    | nil => rw [List.map_eq_nil_iff.mp same.symm]
    | cons first rest induction =>
        cases right with
        | nil => cases same
        | cons first' rest' =>
            rw [List.map_cons, List.map_cons, List.cons_eq_cons] at same
            have here : ({ first with fragment := some number } : Statement).expand =
                { first' with fragment := some number }.expand := by
              have parts := same.1
              rw [Statement.content, Statement.content, Prod.mk.injEq] at parts
              simp only [Statement.expand, Statement.leaves, parts.1, parts.2]
            rw [expandAll, expandAll, Option.some_or, Option.some_or, here, induction same.2]
  rw [ofStatements, expanded, ofStatements]

theorem legal_of_ofStatements {statements : List Statement}
    (read : ∀ statement ∈ statements, statement.metadata.IsRead ∧ statement.tree.IsRead)
    {fragment : Option Int} {forest : Forest}
    (success : ofStatements statements fragment = .ok forest) :
    ∀ leaf ∈ forest.leaves, leaf.Legal ∧ leaf.metadata.IsRead := by
  intro leaf member
  rcases ((of_ofStatements success).2 leaf).mp member with ⟨statement, inside, found, success, here⟩
  have legal := UseTree.legal_of_leaves (read statement inside).2 Path.allBehind_nil success leaf here
  rw [legal.2]
  exact ⟨legal.1, (read statement inside).1⟩

theorem legal_of_ofText {text : String} {fragment : Option Int} {forest : Forest}
    (success : ofText text fragment = .ok forest) :
    ∀ leaf ∈ forest.leaves, leaf.Legal ∧ leaf.metadata.IsRead := by
  rcases exists_of_bind_eq_ok success with ⟨statements, parsed, success⟩
  exact legal_of_ofStatements (Statement.isRead_parse parsed) success

theorem exists_ofText {items : List WrittenItem} (read : ∀ item ∈ items, item.IsRead)
    (expands : ∀ item ∈ items, item.tree.Expands item.metadata) {text : String}
    (spells : Text.Spells text.toList (items.flatMap WrittenItem.words) [])
    (fragment : Option Int) :
    ∃ forest, ofText text fragment = .ok forest ∧
      ∀ leaf, leaf ∈ forest.leaves ↔ ∃ item ∈ items, item.tree.Gives item.metadata leaf := by
  rcases Statement.exists_parse read spells fragment with ⟨statements, parsed, same⟩
  rcases exists_ofStatements same expands fragment with ⟨forest, success, leaves⟩
  refine ⟨forest, ?_, leaves⟩
  rw [ofText, parsed]
  exact success

end Forest

end ImportBlock
