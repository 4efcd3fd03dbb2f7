import ImportBlock.Proofs.Forest
import ImportBlock.Proofs.Merge.Conflicts
import ImportBlock.Proofs.Order
import ImportBlock.Proofs.Spacing
import Mathlib

/-! Spacing in attributes. Texts that are spaced in different ways say the same but for the texts of their
attributes, and these gate in one text if they do in the other. A merge only asks which attributes are equal
and which sets of conditions are, and it asks that of few imports: of one import that is given twice, and of
two renames that cannot stand beside each other. Only there can the spacing decide a conflict. -/

namespace ImportBlock

/-! ## Conflicts -/

attribute [ext] Metadata

namespace Metadata

/-- Whether two metadata differ in nothing but the texts of their attributes, and as many of these gate, in
the same places. -/
structure SameOutline (left right : Metadata) : Prop where
  visibility : left.visibility = right.visibility
  leadingColon : left.leadingColon = right.leadingColon
  gates : left.attributes.map Metadata.gates = right.attributes.map Metadata.gates

theorem scope_eq_nil_iff {metadata : Metadata} :
    metadata.scope = [] ↔ true ∉ metadata.attributes.map gates := by
  simp [scope, List.filter_eq_nil_iff]

theorem SameOutline.scope_eq_nil_iff {left right : Metadata} (same : left.SameOutline right) :
    left.scope = [] ↔ right.scope = [] := by
  rw [Metadata.scope_eq_nil_iff, Metadata.scope_eq_nil_iff, same.gates]

def SameScope (left right : Metadata) : Prop :=
  ∀ condition, condition ∈ left.scope ↔ condition ∈ right.scope

end Metadata

namespace Leaf

/-- Whether two imports differ in nothing but the texts of their attributes. -/
structure SameOutline (left right : Leaf) : Prop where
  path : left.path = right.path
  rename : left.rename = right.rename
  metadata : left.metadata.SameOutline right.metadata

/-- Whether two renames give one path two names or one name two paths, and neither is the underscore. -/
def Clashes (left right : Leaf) : Prop :=
  ∃ name name', left.rename = some name ∧ right.rename = some name' ∧ name ≠ "_" ∧ name' ≠ "_" ∧
    (left.path.text = right.path.text ∧ name ≠ name' ∨
      name = name' ∧ left.path.text ≠ right.path.text)

theorem competes_iff {left right : Leaf} :
    left.Competes right ↔ left.Clashes right ∧
      (left.metadata.scope = [] ∨ right.metadata.scope = [] ∨
        left.metadata.SameScope right.metadata) := by
  constructor
  · rintro ⟨name, name', rename, rename', binds, binds', overlap, clash⟩
    exact ⟨⟨name, name', rename, rename', binds, binds', clash⟩, overlap⟩
  · rintro ⟨⟨name, name', rename, rename', binds, binds', clash⟩, overlap⟩
    exact ⟨name, name', rename, rename', binds, binds', overlap, clash⟩

theorem not_clashes {left right : Leaf} (path : left.path = right.path)
    (rename : left.rename = right.rename) : ¬left.Clashes right := by
  rintro ⟨name, name', is, is', _, _, ⟨_, different⟩ | ⟨_, different⟩⟩
  · rw [is, is', Option.some.injEq] at rename
    exact different rename
  · exact different (congrArg Path.text path)

/-- Whether the spacing decides about two imports, each of them as it is spaced in one text and in another.
It does if both import one thing, alike but for their attributes, and these are equal in one spacing only;
or if their renames clash, both are gated, and they have the same conditions in one spacing only. -/
def SpacingDecides (left left' right right' : Leaf) : Prop :=
  (left.path = right.path ∧ left.rename = right.rename ∧
    left.metadata.visibility = right.metadata.visibility ∧
    left.metadata.leadingColon = right.metadata.leadingColon ∧
    ¬(left.metadata.attributes = right.metadata.attributes ↔
      left'.metadata.attributes = right'.metadata.attributes)) ∨
  left.Clashes right ∧ left.metadata.scope ≠ [] ∧ right.metadata.scope ≠ [] ∧
    ¬(left.metadata.SameScope right.metadata ↔ left'.metadata.SameScope right'.metadata)

theorem SameOutline.contradicts_iff {left left' right right' : Leaf} (first : left.SameOutline left')
    (second : right.SameOutline right') (path : left.path = right.path)
    (rename : left.rename = right.rename) :
    left'.Contradicts right' ↔ (left.Contradicts right ↔
      ¬(left.metadata.visibility = right.metadata.visibility ∧
        left.metadata.leadingColon = right.metadata.leadingColon ∧
        ¬(left.metadata.attributes = right.metadata.attributes ↔
          left'.metadata.attributes = right'.metadata.attributes))) := by
  have path' : left'.path = right'.path := by rw [← first.path, ← second.path, path]
  have rename' : left'.rename = right'.rename := by rw [← first.rename, ← second.rename, rename]
  simp only [Contradicts, path, rename, path', rename', true_and, ne_eq, Metadata.ext_iff,
    ← first.metadata.visibility, ← second.metadata.visibility, ← first.metadata.leadingColon,
    ← second.metadata.leadingColon]
  grind

theorem SameOutline.competes_iff {left left' right right' : Leaf} (first : left.SameOutline left')
    (second : right.SameOutline right') :
    left'.Competes right' ↔ (left.Competes right ↔
      ¬(left.Clashes right ∧ left.metadata.scope ≠ [] ∧ right.metadata.scope ≠ [] ∧
        ¬(left.metadata.SameScope right.metadata ↔ left'.metadata.SameScope right'.metadata))) := by
  have clashes : left'.Clashes right' ↔ left.Clashes right := by
    simp only [Clashes, first.path, first.rename, second.path, second.rename]
  rw [Leaf.competes_iff, Leaf.competes_iff, clashes, ← first.metadata.scope_eq_nil_iff,
    ← second.metadata.scope_eq_nil_iff]
  grind

theorem SameOutline.conflicts_iff {left left' right right' : Leaf} (first : left.SameOutline left')
    (second : right.SameOutline right') :
    left'.Conflicts right' ↔ (left.Conflicts right ↔ ¬SpacingDecides left left' right right') := by
  by_cases same : left.path = right.path ∧ left.rename = right.rename
  · have path' : left'.path = right'.path := by rw [← first.path, ← second.path, same.1]
    have rename' : left'.rename = right'.rename := by rw [← first.rename, ← second.rename, same.2]
    have apart := not_clashes same.1 same.2
    have apart' := not_clashes path' rename'
    have contradicts := first.contradicts_iff second same.1 same.2
    simp only [Conflicts, Leaf.competes_iff, SpacingDecides, apart, apart', same, true_and, false_and,
      or_false]
    exact contradicts
  · have same' : ¬(left'.path = right'.path ∧ left'.rename = right'.rename) := by
      rwa [← first.path, ← second.path, ← first.rename, ← second.rename]
    have agree : ¬left.Contradicts right := fun contradicts => same ⟨contradicts.1, contradicts.2.1⟩
    have agree' : ¬left'.Contradicts right' := fun contradicts =>
      same' ⟨contradicts.1, contradicts.2.1⟩
    have competes := first.competes_iff second
    have decides : SpacingDecides left left' right right' ↔
        left.Clashes right ∧ left.metadata.scope ≠ [] ∧ right.metadata.scope ≠ [] ∧
          ¬(left.metadata.SameScope right.metadata ↔ left'.metadata.SameScope right'.metadata) :=
      or_iff_right fun one => same ⟨one.1, one.2.1⟩
    rw [decides, Conflicts, Conflicts, or_iff_right agree, or_iff_right agree']
    exact competes

end Leaf

/-! ## Reading -/

def Word.respell (spell : String → String) (word : Word) : Word :=
  if word.kind = .attribute then ⟨.attribute, spell word.text⟩ else word

section Respell

variable (spell : String → String)

mutual
theorem TreePhrase.map_respell_words : ∀ phrase : TreePhrase,
    phrase.words.map (Word.respell spell) = phrase.words
  | .glob | .name _ | .rename _ _ | .emptyGroup => by simp [TreePhrase.words, Word.respell]
  | .path word rest => by
      simp [TreePhrase.words, Word.respell, TreePhrase.map_respell_words rest]
  | .group items => by
      simp [TreePhrase.words, Word.respell, ListPhrase.map_respell_words items]

theorem ListPhrase.map_respell_words : ∀ phrase : ListPhrase,
    phrase.words.map (Word.respell spell) = phrase.words
  | .last item comma => by
      cases comma <;> simp [ListPhrase.words, Word.respell, TreePhrase.map_respell_words item]
  | .more item rest => by
      simp [ListPhrase.words, Word.respell, TreePhrase.map_respell_words item,
        ListPhrase.map_respell_words rest]
end

theorem Visibility.map_respell_pathWords (segments : List String) :
    (pathWords segments).map (Word.respell spell) = pathWords segments := by
  fun_induction pathWords segments with
  | case1 => rfl
  | case2 segment => simp [Word.respell]
  | case3 segment next rest induction => simp [Word.respell, induction]

theorem Visibility.map_respell_words (visibility : Visibility) :
    visibility.words.map (Word.respell spell) = visibility.words := by
  cases visibility <;> simp [words, scopeWords, Word.respell, map_respell_pathWords]

def ItemPhrase.respell (item : ItemPhrase) : ItemPhrase :=
  { item with attributes := item.attributes.map spell }

theorem ItemPhrase.words_respell (item : ItemPhrase) :
    (item.respell spell).words = item.words.map (Word.respell spell) := by
  have colons : (colonWords item.leadingColon).map (Word.respell spell) =
      colonWords item.leadingColon := by
    cases item.leadingColon <;> simp [colonWords, Word.respell]
  simp [words, respell, attributeWords, Word.respell, colons, Visibility.map_respell_words,
    TreePhrase.map_respell_words, Function.comp_def]

end Respell

/-- One text for all attributes that gate, and one for all others. -/
def Metadata.normal (body : String) : String := if gates body then "cfg(" else ""

theorem Metadata.gates_normal (body : String) : gates (normal body) = gates body := by
  rw [normal]
  cases gates body <;> decide

theorem Word.respell_normal_congr {word word' : Word} (same : word.outline = word'.outline) :
    word.respell Metadata.normal = word'.respell Metadata.normal := by
  rcases word with ⟨kind, body⟩
  rcases word' with ⟨kind', body'⟩
  have kinds : kind = kind' := by
    have first := congrArg (fun pair => pair.1.kind) same
    unfold outline at first
    dsimp only at first
    split at first <;> split at first <;> simp_all
  subst kinds
  by_cases isAttribute : kind = .attribute
  · subst isAttribute
    have gates : Metadata.gates body = Metadata.gates body' := congrArg Prod.snd same
    simp only [respell, if_true, Metadata.normal, gates]
  · rw [outline, outline, if_neg isAttribute, if_neg isAttribute] at same
    exact congrArg (respell Metadata.normal ∘ Prod.fst) same

def Metadata.normalized (content : Metadata × UseTree) : Metadata × UseTree :=
  ({ content.1 with attributes := content.1.attributes.map normal }, content.2)

theorem Metadata.sameOutline_of_normalized {left right : Metadata × UseTree}
    (same : normalized left = normalized right) : left.1.SameOutline right.1 ∧ left.2 = right.2 := by
  rw [normalized, normalized, Prod.mk.injEq, Metadata.mk.injEq] at same
  rcases same with ⟨⟨visibility, attributes, leadingColon⟩, tree⟩
  have gates := congrArg (List.map Metadata.gates) attributes
  simp only [List.map_map, Function.comp_def, gates_normal] at gates
  exact ⟨⟨visibility, leadingColon, gates⟩, tree⟩

namespace Statement

/-- Whether two statements differ in nothing but the texts of their attributes. -/
structure SameOutline (left right : Statement) : Prop where
  metadata : left.metadata.SameOutline right.metadata
  tree : left.tree = right.tree

/-- Texts whose words have the same outlines are read as statements that have. -/
theorem forall₂_sameOutline {text text' : String} {fragment fragment' : Option Int}
    {statements statements' : List Statement} (parsed : parse text fragment = .ok statements)
    (parsed' : parse text' fragment' = .ok statements')
    (same : (Text.words text.toList).map Word.outline = (Text.words text'.toList).map Word.outline) :
    List.Forall₂ SameOutline statements statements' := by
  rcases exists_derives_of_parse parsed with ⟨items, derives, contents⟩
  rcases exists_derives_of_parse parsed' with ⟨items', derives', contents'⟩
  have words : Text.words text.toList = items.flatMap ItemPhrase.words := by
    rw [← derives.tokens]
    exact (Text.map_word_tokens 0 _).symm
  have words' : Text.words text'.toList = items'.flatMap ItemPhrase.words := by
    rw [← derives'.tokens]
    exact (Text.map_word_tokens 0 _).symm
  have respelled : items.map (ItemPhrase.respell Metadata.normal) =
      items'.map (ItemPhrase.respell Metadata.normal) := by
    apply ItemPhrase.eq_of_flatMap_words
    · exact List.forall_mem_map.mpr derives.formed
    · exact List.forall_mem_map.mpr derives'.formed
    · simp only [List.flatMap_map, ItemPhrase.words_respell, ← List.map_flatMap, ← words, ← words']
      exact forall₂_key_iff.mp
        ((forall₂_key_iff.mpr same).imp fun _ _ => Word.respell_normal_congr)
  have normal : statements.map (Metadata.normalized ∘ content) =
      statements'.map (Metadata.normalized ∘ content) := by
    rw [← List.map_map, contents, ← List.map_map, contents', List.map_map, List.map_map]
    have each := congrArg (List.map ItemPhrase.content) respelled
    rwa [List.map_map, List.map_map] at each
  refine (forall₂_key_iff.mpr normal).imp fun left right same => ?_
  have parts := Metadata.sameOutline_of_normalized same
  exact ⟨parts.1, parts.2⟩

end Statement

namespace UseTree

mutual
/-- What a tree expands to does not depend on the metadata, which only go along. -/
theorem leaves_metadata {metadata : Metadata} (metadata' : Metadata) : ∀ {tree : UseTree}
    {before : Path} {inGroup : Bool} {found : List Leaf},
      tree.leaves metadata before inGroup = .ok found →
        tree.leaves metadata' before inGroup =
          .ok (found.map fun leaf => { leaf with metadata := metadata' })
  | .name word, before, inGroup, found, success => by
      rw [leaves] at success ⊢
      rcases exists_of_bind_eq_ok success with ⟨segment, here, equal⟩
      cases equal
      rw [here]
      rfl
  | .rename word target, before, inGroup, found, success => by
      rw [leaves] at success ⊢
      rcases exists_of_bind_eq_ok success with ⟨segment, here, success⟩
      rw [here]
      change (if _ then _ else _) = _
      split at success
      · next isTarget =>
          cases success
          rw [if_pos isTarget]
          rfl
      · cases success
  | .glob, before, inGroup, found, success => by
      rw [leaves] at success ⊢
      split at success
      · cases success
      · next behind =>
          cases success
          rw [if_neg behind]
          rfl
  | .path word rest, before, inGroup, found, success => by
      rw [leaves] at success ⊢
      rcases exists_of_bind_eq_ok success with ⟨segment, here, success⟩
      rw [here]
      exact leaves_metadata metadata' success
  | .group items, before, inGroup, found, success => by
      rw [leaves] at success ⊢
      exact allLeaves_metadata metadata' success
  | .foreign value, before, inGroup, found, success => by
      cases success

theorem allLeaves_metadata {metadata : Metadata} (metadata' : Metadata) : ∀ {items : List UseTree}
    {before : Path} {found : List Leaf}, allLeaves metadata before items = .ok found →
      allLeaves metadata' before items =
        .ok (found.map fun leaf => { leaf with metadata := metadata' })
  | [], before, found, success => by
      cases success
      rfl
  | tree :: rest, before, found, success => by
      rw [allLeaves] at success ⊢
      rcases exists_of_bind_eq_ok success with ⟨first, here, success⟩
      rcases exists_of_bind_eq_ok success with ⟨others, later, success⟩
      cases success
      rw [leaves_metadata metadata' here, allLeaves_metadata metadata' later, List.map_append]
      rfl
end

theorem Gives.metadata {metadata : Metadata} {tree : UseTree} {leaf : Leaf}
    (gives : tree.Gives metadata leaf) :
    leaf.metadata = metadata ∧
      ∀ metadata', tree.Gives metadata' { leaf with metadata := metadata' } := by
  rcases gives with ⟨found, success, member⟩
  constructor
  · have again := leaves_metadata metadata success
    rw [success, Except.ok.injEq] at again
    rw [again] at member
    rcases List.mem_map.mp member with ⟨_, _, rfl⟩
    rfl
  · intro metadata'
    exact ⟨_, leaves_metadata metadata' success, List.mem_map_of_mem member⟩

end UseTree

/-! ## Imports of texts -/

/-- Whether two statements stand at the same place of two lists of texts. -/
def Statement.Counterparts (texts texts' : List String) (statement statement' : Statement) : Prop :=
  ∃ pair ∈ texts.zip texts', ∃ statements statements', parse pair.1 = .ok statements ∧
    parse pair.2 = .ok statements' ∧ (statement, statement') ∈ statements.zip statements'

/-- Whether two imports come from the same place of two lists of texts: they are one import, each of them
with the attributes that stand at this place. -/
def Leaf.Counterparts (texts texts' : List String) (leaf leaf' : Leaf) : Prop :=
  ∃ statement statement', Statement.Counterparts texts texts' statement statement' ∧
    ∃ given, statement.tree.Gives statement.metadata given ∧ leaf = given.canonical ∧
      leaf' = { leaf with metadata := statement'.metadata }

/-- Whether forests are read from texts, each from its own. -/
def Forest.AreRead (texts : List String) (forests : List Forest) : Prop :=
  List.Forall₂ (fun text forest => ∃ number, ofText text number = .ok forest) texts forests

namespace Statement

theorem exists_parse_of_parse {text : String} {fragment : Option Int} {statements : List Statement}
    (parsed : parse text fragment = .ok statements) :
    ∃ again, parse text = .ok again ∧ again.map content = statements.map content := by
  rcases exists_derives_of_parse parsed with ⟨items, derives, contents⟩
  rcases exists_parse_of_derives derives (some 0) with ⟨again, parsed', contents'⟩
  exact ⟨again, parsed', contents'.trans contents.symm⟩

end Statement

namespace Forest

variable {texts texts' : List String} {forests forests' : List Forest}

theorem exists_parse_of_ofText {text : String} {fragment : Option Int} {forest : Forest}
    (read : ofText text fragment = .ok forest) :
    ∃ statements, Statement.parse text = .ok statements ∧ ∀ given, given ∈ forest.leaves ↔
      ∃ statement ∈ statements, statement.tree.Gives statement.metadata given := by
  rcases exists_of_bind_eq_ok read with ⟨statements, parsed, formed⟩
  rcases Statement.exists_parse_of_parse parsed with ⟨again, parsed', contents⟩
  refine ⟨again, parsed', fun given => ?_⟩
  rw [(of_ofStatements formed).2]
  constructor
  · rintro ⟨statement, inside, gives⟩
    rcases exists_of_map_eq contents.symm inside with ⟨other, inside', same⟩
    rw [Statement.content, Statement.content, Prod.mk.injEq] at same
    exact ⟨other, inside', same.1 ▸ same.2 ▸ gives⟩
  · rintro ⟨statement, inside, gives⟩
    rcases exists_of_map_eq contents inside with ⟨other, inside', same⟩
    rw [Statement.content, Statement.content, Prod.mk.injEq] at same
    exact ⟨other, inside', same.1 ▸ same.2 ▸ gives⟩

theorem AreRead.exists_parse (read : AreRead texts forests) {text : String} (member : text ∈ texts) :
    ∃ statements, Statement.parse text = .ok statements := by
  rcases exists_of_mem_of_forall₂ read member with ⟨forest, _, number, formed⟩
  rcases exists_parse_of_ofText formed with ⟨statements, parsed, _⟩
  exact ⟨statements, parsed⟩

theorem AreRead.mem_imports_iff (read : AreRead texts forests) {leaf : Leaf} :
    leaf ∈ imports forests ↔ ∃ text ∈ texts, ∃ statements, Statement.parse text = .ok statements ∧
      ∃ statement ∈ statements, ∃ given, statement.tree.Gives statement.metadata given ∧
        leaf = given.canonical := by
  constructor
  · intro member
    rcases List.mem_flatMap.mp member with ⟨forest, inside, found⟩
    rcases List.mem_map.mp found with ⟨given, lies, rfl⟩
    rcases exists_of_mem_of_forall₂ read.flip inside with ⟨text, inText, number, formed⟩
    rcases exists_parse_of_ofText formed with ⟨statements, parsed, leaves⟩
    rcases (leaves given).mp lies with ⟨statement, inside, gives⟩
    exact ⟨text, inText, statements, parsed, statement, inside, given, gives, rfl⟩
  · rintro ⟨text, inText, statements, parsed, statement, inside, given, gives, rfl⟩
    rcases exists_of_mem_of_forall₂ read inText with ⟨forest, inside', number, formed⟩
    rcases exists_parse_of_ofText formed with ⟨again, parsed', leaves⟩
    rw [parsed] at parsed'
    cases parsed'
    exact List.mem_flatMap.mpr ⟨forest, inside',
      List.mem_map_of_mem ((leaves given).mpr ⟨statement, inside, gives⟩)⟩

end Forest

section Respaced

variable {texts texts' : List String} {forests forests' : List Forest} {leaf leaf' : Leaf}
  (read : Forest.AreRead texts forests) (read' : Forest.AreRead texts' forests')
  (respaced : List.Forall₂ (fun text text' => Text.Respaced text.toList text'.toList) texts texts')

theorem Statement.forall₂_sameOutline_of_respaced {text text' : String}
    (respaced : Text.Respaced text.toList text'.toList) {statements statements' : List Statement}
    (parsed : parse text = .ok statements) (parsed' : parse text' = .ok statements') :
    List.Forall₂ SameOutline statements statements' :=
  forall₂_sameOutline parsed parsed' respaced.outlines

include respaced

theorem Statement.Counterparts.sameOutline {statement statement' : Statement}
    (counterparts : Counterparts texts texts' statement statement') :
    statement.SameOutline statement' := by
  rcases counterparts with ⟨pair, inside, statements, statements', parsed, parsed', member⟩
  exact List.forall₂_zip
    (forall₂_sameOutline_of_respaced (List.forall₂_zip respaced inside) parsed parsed') member

theorem Leaf.Counterparts.sameOutline (counterparts : Counterparts texts texts' leaf leaf') :
    leaf.SameOutline leaf' := by
  rcases counterparts with ⟨statement, statement', counterparts, given, gives, rfl, rfl⟩
  refine ⟨rfl, rfl, ?_⟩
  have given' := gives.metadata.1
  have same := (counterparts.sameOutline respaced).metadata
  rwa [← given'] at same

include read read'

theorem Leaf.Counterparts.imports (counterparts : Counterparts texts texts' leaf leaf') :
    leaf ∈ Forest.imports forests ∧ leaf' ∈ Forest.imports forests' := by
  rcases counterparts with ⟨statement, statement', counterparts, given, gives, rfl, rfl⟩
  have same := counterparts.sameOutline respaced
  rcases counterparts with ⟨pair, inside, statements, statements', parsed, parsed', member⟩
  rw [read.mem_imports_iff, read'.mem_imports_iff]
  refine ⟨⟨pair.1, (List.of_mem_zip inside).1, statements, parsed, statement,
    (List.of_mem_zip member).1, given, gives, rfl⟩, ⟨pair.2, (List.of_mem_zip inside).2, statements',
    parsed', statement', (List.of_mem_zip member).2, { given with metadata := statement'.metadata }, ?_,
    rfl⟩⟩
  rw [← same.tree]
  exact gives.metadata.2 _

theorem Forest.exists_counterpart_of_mem_left (member : leaf ∈ imports forests) :
    ∃ leaf', Leaf.Counterparts texts texts' leaf leaf' := by
  rcases read.mem_imports_iff.mp member with
    ⟨text, inText, statements, parsed, statement, inside, given, gives, rfl⟩
  rcases exists_zip_of_mem_left respaced inText with ⟨text', together, respacedText⟩
  rcases read'.exists_parse (List.of_mem_zip together).2 with ⟨statements', parsed'⟩
  rcases exists_zip_of_mem_left
    (Statement.forall₂_sameOutline_of_respaced respacedText parsed parsed') inside with
      ⟨statement', together', _⟩
  exact ⟨_, statement, statement', ⟨_, together, statements, statements', parsed, parsed', together'⟩,
    given, gives, rfl, rfl⟩

theorem Forest.exists_counterpart_of_mem_right (member : leaf' ∈ imports forests') :
    ∃ leaf, Leaf.Counterparts texts texts' leaf leaf' := by
  rcases read'.mem_imports_iff.mp member with
    ⟨text', inText, statements', parsed', statement', inside, given, gives, rfl⟩
  rcases exists_zip_of_mem_right respaced inText with ⟨text, together, respacedText⟩
  rcases read.exists_parse (List.of_mem_zip together).1 with ⟨statements, parsed⟩
  rcases exists_zip_of_mem_right
    (Statement.forall₂_sameOutline_of_respaced respacedText parsed parsed') inside with
      ⟨statement, together', same⟩
  rw [← same.tree] at gives
  have given' := gives.metadata
  refine ⟨_, statement, statement', ⟨_, together, statements, statements', parsed, parsed', together'⟩,
    { given with metadata := statement.metadata }, given'.2 _, rfl, ?_⟩
  rw [← given'.1]
  rfl

end Respaced

/-! ## Merging -/

namespace MergedSet

/-- Let lists of texts differ in the spacing of their attributes only. Where the spacing decides about no two
imports, both lists are in conflict or both are not. In any case the second is in conflict exactly if it
holds two imports that are in conflict in the first list and about which the spacing does not decide, or two
that are not and about which it does. -/
theorem merge_error_iff_of_respaced {texts texts' : List String} {forests forests' : List Forest}
    (read : Forest.AreRead texts forests) (read' : Forest.AreRead texts' forests')
    (respaced : List.Forall₂ (fun text text' => Text.Respaced text.toList text'.toList) texts texts')
    (absorbByRename : Bool) :
    ((∀ left left' right right', Leaf.Counterparts texts texts' left left' →
        Leaf.Counterparts texts texts' right right' → ¬Leaf.SpacingDecides left left' right right') →
      ((∃ conflict, merge forests absorbByRename = .error conflict) ↔
        ∃ conflict, merge forests' absorbByRename = .error conflict)) ∧
    ((∃ conflict, merge forests' absorbByRename = .error conflict) ↔
      ∃ left left' right right', Leaf.Counterparts texts texts' left left' ∧
        Leaf.Counterparts texts texts' right right' ∧
          (left.Conflicts right ↔ ¬Leaf.SpacingDecides left left' right right')) := by
  have fails : (∃ conflict, merge forests absorbByRename = .error conflict) ↔
      ∃ left left' right right', Leaf.Counterparts texts texts' left left' ∧
        Leaf.Counterparts texts texts' right right' ∧ left.Conflicts right := by
    rw [exists_merge_eq_error_iff]
    constructor
    · rintro ⟨left, inLeft, right, inRight, conflicts⟩
      rcases Forest.exists_counterpart_of_mem_left read read' respaced inLeft with ⟨left', first⟩
      rcases Forest.exists_counterpart_of_mem_left read read' respaced inRight with ⟨right', second⟩
      exact ⟨left, left', right, right', first, second, conflicts⟩
    · rintro ⟨left, left', right, right', first, second, conflicts⟩
      exact ⟨left, (first.imports read read' respaced).1, right, (second.imports read read' respaced).1,
        conflicts⟩
  have fails' : (∃ conflict, merge forests' absorbByRename = .error conflict) ↔
      ∃ left left' right right', Leaf.Counterparts texts texts' left left' ∧
        Leaf.Counterparts texts texts' right right' ∧
          (left.Conflicts right ↔ ¬Leaf.SpacingDecides left left' right right') := by
    rw [exists_merge_eq_error_iff]
    constructor
    · rintro ⟨left', inLeft, right', inRight, conflicts⟩
      rcases Forest.exists_counterpart_of_mem_right read read' respaced inLeft with ⟨left, first⟩
      rcases Forest.exists_counterpart_of_mem_right read read' respaced inRight with ⟨right, second⟩
      exact ⟨left, left', right, right', first, second,
        ((first.sameOutline respaced).conflicts_iff (second.sameOutline respaced)).mp conflicts⟩
    · rintro ⟨left, left', right, right', first, second, agree⟩
      exact ⟨left', (first.imports read read' respaced).2, right', (second.imports read read' respaced).2,
        ((first.sameOutline respaced).conflicts_iff (second.sameOutline respaced)).mpr agree⟩
  refine ⟨fun quiet => ?_, fails'⟩
  rw [fails, fails']
  constructor
  · rintro ⟨left, left', right, right', first, second, conflicts⟩
    exact ⟨left, left', right, right', first, second,
      iff_of_true conflicts (quiet _ _ _ _ first second)⟩
  · rintro ⟨left, left', right, right', first, second, agree⟩
    exact ⟨left, left', right, right', first, second, agree.mpr (quiet _ _ _ _ first second)⟩

theorem merge_error_iff_of_respaced_unrelated :
    ¬∃ conflict, merge [⟨0, [.leaf ⟨[.name "a"], none, { attributes := ["cfg( unix)"] }⟩,
        .leaf ⟨[.name "b"], none, { attributes := ["cfg(unix)"] }⟩]⟩] true = .error conflict := by
  let text := "#[cfg(unix)]" ++ "use a;#[cfg(unix)]use b;"
  let text' := "#[cfg( unix)]" ++ "use a;#[cfg(unix)]use b;"
  let plain : Metadata := { attributes := ["cfg(unix)"] }
  let blank : Metadata := { attributes := ["cfg( unix)"] }
  have respaced : Text.Respaced text.toList text'.toList := Text.respaced_unix (by cbv)
  have read : Forest.AreRead [text]
      [⟨0, [.leaf ⟨[.name "a"], none, plain⟩, .leaf ⟨[.name "b"], none, plain⟩]⟩] :=
    .cons ⟨some 0, by cbv⟩ .nil
  have read' : Forest.AreRead [text']
      [⟨0, [.leaf ⟨[.name "a"], none, blank⟩, .leaf ⟨[.name "b"], none, plain⟩]⟩] :=
    .cons ⟨some 0, by cbv⟩ .nil
  have parsed : Statement.parse text = .ok [⟨.name "a", plain, some 0, some ⟨0, 18⟩⟩,
      ⟨.name "b", plain, some 0, some ⟨18, 36⟩⟩] := by cbv
  have parsed' : Statement.parse text' = .ok [⟨.name "a", blank, some 0, some ⟨0, 19⟩⟩,
      ⟨.name "b", plain, some 0, some ⟨19, 37⟩⟩] := by cbv
  have counterparts : ∀ leaf leaf', Leaf.Counterparts [text] [text'] leaf leaf' →
      leaf = ⟨[.name "a"], none, plain⟩ ∧ leaf'.metadata = blank ∨
        leaf = ⟨[.name "b"], none, plain⟩ ∧ leaf'.metadata = plain := by
    rintro leaf leaf' ⟨statement, statement', ⟨pair, member, _, _, one, other, both⟩, given, gives, rfl,
      rfl⟩
    rw [List.mem_singleton.mp member] at one other
    cases parsed.symm.trans one
    cases parsed'.symm.trans other
    rcases List.mem_cons.mp both with equal | both
    · cases equal
      rw [List.mem_singleton.mp ((UseTree.gives_iff rfl).mp gives)]
      exact .inl ⟨rfl, rfl⟩
    · cases List.mem_singleton.mp both
      rw [List.mem_singleton.mp ((UseTree.gives_iff rfl).mp gives)]
      exact .inr ⟨rfl, rfl⟩
  have apart : ¬∃ conflict, merge
      [⟨0, [.leaf ⟨[.name "a"], none, plain⟩, .leaf ⟨[.name "b"], none, plain⟩]⟩] true =
        .error conflict := by
    have success : merge
        [⟨0, [.leaf ⟨[.name "a"], none, plain⟩, .leaf ⟨[.name "b"], none, plain⟩]⟩] true =
          .ok ⟨[.leaf ⟨[.name "a"], none, plain⟩, .leaf ⟨[.name "b"], none, plain⟩]⟩ := by cbv
    rw [success]
    rintro ⟨_, failed⟩
    cases failed
  refine fun fails => apart
    (((merge_error_iff_of_respaced read read' (.cons respaced .nil) true).1 ?_).mpr fails)
  intro left left' right right' first second
  rcases counterparts _ _ first with ⟨rfl, is⟩ | ⟨rfl, is⟩ <;>
    rcases counterparts _ _ second with ⟨rfl, is'⟩ | ⟨rfl, is'⟩ <;>
      simp [Leaf.SpacingDecides, Leaf.Clashes, Segment.name, is, is']

/-- Blanks in one of two equal attributes set the imports of these in conflict. -/
theorem merge_error_of_respaced_apart :
    ¬∀ (texts texts' : List String) (forests forests' : List Forest),
      Forest.AreRead texts forests → Forest.AreRead texts' forests' →
      List.Forall₂ (fun text text' => Text.Respaced text.toList text'.toList) texts texts' →
      ∀ absorbByRename, (∃ conflict, merge forests absorbByRename = .error conflict) ↔
        ∃ conflict, merge forests' absorbByRename = .error conflict := by
  intro same
  let text := "#[cfg(unix)]" ++ "use a;"
  let text' := "#[cfg( unix)]" ++ "use a;"
  let forest : Forest := ⟨0, [.leaf ⟨[.name "a"], none, { attributes := ["cfg(unix)"] }⟩]⟩
  let forest' : Forest := ⟨0, [.leaf ⟨[.name "a"], none, { attributes := ["cfg( unix)"] }⟩]⟩
  have read : ∃ number, Forest.ofText text number = .ok forest := ⟨some 0, by cbv⟩
  have read' : ∃ number, Forest.ofText text' number = .ok forest' := ⟨some 0, by cbv⟩
  have agree := same [text, text] [text, text'] [forest, forest] [forest, forest']
    (.cons read (.cons read .nil)) (.cons read (.cons read' .nil))
    (.cons (.refl _) (.cons (Text.respaced_unix (by cbv)) .nil)) true
  have fails : ∃ conflict, merge [forest, forest'] true = .error conflict :=
    ⟨.metadata "a" ["#[cfg( unix)]", "#[cfg(unix)]"] [0, 0], by cbv⟩
  have succeeds : merge [forest, forest] true = .ok ⟨forest.roots⟩ := by cbv
  rcases agree.mpr fails with ⟨conflict, failed⟩
  rw [succeeds] at failed
  cases failed

end MergedSet

end ImportBlock
