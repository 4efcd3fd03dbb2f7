import ImportBlock.Proofs.Merge.Conflicts
import ImportBlock.Proofs.Path
import Mathlib

/-! What a conflict tells. It names two imports that are in conflict with each other and the fragments
that they come from: for an import that several forests hold, the first of these. -/

namespace ImportBlock

/-! ## Entries and what was added -/

namespace Entry

theorem matchesImport_self (entry : Entry) : entry.matchesImport entry = true :=
  matchesImport_iff.mpr ⟨rfl, rfl⟩

variable {entries added items : List Entry} {entry : Entry}

/-- Whether an entry is the first of its import among some that were added. -/
def IsFirst (added : List Entry) (entry : Entry) : Prop :=
  added.find? (·.matchesImport entry) = some entry

theorem IsFirst.append (first : IsFirst added entry) (more : List Entry) :
    IsFirst (added ++ more) entry := by
  rw [IsFirst, List.find?_append, first]
  rfl

theorem isFirst_concat (new : ∀ other ∈ added, other.matchesImport entry = false) :
    IsFirst (added ++ [entry]) entry := by
  have none : added.find? (·.matchesImport entry) = none := by
    rw [List.find?_eq_none]
    intro other member
    rw [new other member]
    exact Bool.false_ne_true
  rw [IsFirst, List.find?_append, none, Option.none_or, List.find?_singleton,
    if_pos (matchesImport_self entry)]

/-- Whether entries stand for all that were added: each is the first of its import, and no import is
left out. -/
structure StandFor (entries added : List Entry) : Prop where
  first : ∀ entry ∈ entries, IsFirst added entry
  present : ∀ entry ∈ added, ∃ existing ∈ entries, existing.matchesImport entry = true

theorem standFor_nil : StandFor [] [] := ⟨nofun, nofun⟩

namespace StandFor

theorem apart (standFor : StandFor entries added)
    (new : ∀ existing ∈ entries, existing.matchesImport entry = false) :
    ∀ other ∈ added, other.matchesImport entry = false := by
  intro other member
  rcases standFor.present other member with ⟨existing, inside, same⟩
  have different := new existing inside
  rw [matchesImport_iff] at same
  rw [← Bool.not_eq_true, matchesImport_iff] at different ⊢
  intro alike
  exact different ⟨same.1.trans alike.1, same.2.trans alike.2⟩

theorem insert (standFor : StandFor entries added) {next : List Entry}
    (success : insert entries entry = .ok next) : StandFor next (added ++ [entry]) := by
  have old : ∀ one ∈ entries, IsFirst (added ++ [entry]) one :=
    fun one inside => (standFor.first one inside).append _
  rcases insert_cases entries entry with ⟨added', new⟩ | ⟨added', other, member, equal⟩ |
      ⟨existing, member, contradicts, failed⟩
  · rw [added'] at success
    cases success
    refine ⟨List.forall_mem_append.mpr ⟨old, ?_⟩, List.forall_mem_append.mpr ⟨?_, ?_⟩⟩
    · rw [List.forall_mem_singleton]
      exact isFirst_concat (standFor.apart new)
    · intro one inside
      rcases standFor.present one inside with ⟨existing, held, same⟩
      exact ⟨existing, List.mem_append_left _ held, same⟩
    · rw [List.forall_mem_singleton]
      exact ⟨entry, List.mem_append_right _ (List.mem_singleton_self _), matchesImport_self entry⟩
  · rw [added'] at success
    cases success
    refine ⟨old, List.forall_mem_append.mpr ⟨standFor.present, ?_⟩⟩
    rw [List.forall_mem_singleton]
    exact ⟨other, member, matchesImport_iff.mpr (by rw [equal]; exact ⟨rfl, rfl⟩)⟩
  · rw [failed] at success
    cases success

/-- Entries that are added one after the other are stood for, until one contradicts the first of its
import. -/
theorem foldlM_insert (standFor : StandFor entries added) :
    (∀ result, items.foldlM Entry.insert entries = .ok result →
      StandFor result (added ++ items)) ∧
    ∀ conflict, items.foldlM Entry.insert entries = .error conflict →
      ∃ first second, IsFirst (added ++ items) first ∧ second ∈ added ++ items ∧
        first.leaf.Contradicts second.leaf ∧ conflict = metadataConflict first second := by
  induction items generalizing entries added with
  | nil =>
      refine ⟨?_, nofun⟩
      intro result success
      cases success
      rwa [List.append_nil]
  | cons entry rest induction =>
      rw [List.foldlM_cons]
      cases inserted : Entry.insert entries entry with
      | ok next =>
          have later := induction (standFor.insert inserted)
          rwa [List.append_assoc, List.singleton_append] at later
      | error conflict =>
          refine ⟨nofun, ?_⟩
          intro conflict' failed
          cases failed
          rcases insert_cases entries entry with ⟨success, _⟩ | ⟨success, _⟩ |
              ⟨existing, member, contradicts, failed⟩
          · rw [success] at inserted
            cases inserted
          · rw [success] at inserted
            cases inserted
          · rw [failed] at inserted
            cases inserted
            exact ⟨existing, entry, (standFor.first existing member).append _,
              List.mem_append_right _ List.mem_cons_self, contradicts, rfl⟩

end StandFor

end Entry

/-! ## Forests and what they hold -/

namespace Forest

/-- Whether a leaf is an import of a forest of this number. -/
def Holds (forests : List Forest) (leaf : Leaf) (fragment : Int) : Prop :=
  ∃ forest ∈ forests, forest.fragment = fragment ∧ leaf ∈ imports [forest]

/-- Whether a leaf is an import of a forest of this number, and no forest before that one imports its
path with its rename. -/
def FirstHolds (forests : List Forest) (leaf : Leaf) (fragment : Int) : Prop :=
  ∃ before forest behind, forests = before ++ forest :: behind ∧ forest.fragment = fragment ∧
    leaf ∈ imports [forest] ∧
      ∀ other ∈ imports before, ¬(other.path = leaf.path ∧ other.rename = leaf.rename)

theorem FirstHolds.mem_imports {forests : List Forest} {leaf : Leaf} {fragment : Int}
    (first : FirstHolds forests leaf fragment) : leaf ∈ imports forests := by
  rcases first with ⟨before, forest, behind, rfl, _, member, _⟩
  rw [imports, List.flatMap_append, List.flatMap_cons]
  rw [imports, List.flatMap_singleton] at member
  exact List.mem_append_right _ (List.mem_append_left _ member)

end Forest

namespace Entry

variable {forests : List Forest} {entry : Entry}

theorem of_mem_ofForest {forest : Forest} (member : entry ∈ ofForest forest) :
    forest.fragment = entry.fragment ∧ entry.leaf ∈ Forest.imports [forest] := by
  rw [← map_leaf_flatMap_ofForest, List.flatMap_singleton]
  refine ⟨?_, List.mem_map_of_mem member⟩
  rcases List.mem_map.mp member with ⟨leaf, _, rfl⟩
  rfl

theorem holds_of_mem (member : entry ∈ forests.flatMap ofForest) :
    Forest.Holds forests entry.leaf entry.fragment := by
  rcases List.mem_flatMap.mp member with ⟨forest, inside, own⟩
  exact ⟨forest, inside, of_mem_ofForest own⟩

theorem IsFirst.firstHolds (first : IsFirst (forests.flatMap ofForest) entry) :
    Forest.FirstHolds forests entry.leaf entry.fragment := by
  rw [IsFirst, List.find?_flatMap, List.findSome?_eq_some_iff] at first
  rcases first with ⟨before, forest, behind, split, found, none⟩
  have own := of_mem_ofForest (List.mem_of_find?_eq_some found)
  refine ⟨before, forest, behind, split, own.1, own.2, ?_⟩
  intro leaf member same
  rw [← map_leaf_flatMap_ofForest] at member
  rcases List.mem_map.mp member with ⟨other, inside, rfl⟩
  rcases List.mem_flatMap.mp inside with ⟨holder, earlier, own'⟩
  exact List.find?_eq_none.mp (none holder earlier) other own' (matchesImport_iff.mpr same)

theorem firstHolds_of_mem {entries : List Entry} (success : ofForests forests = .ok entries)
    (member : entry ∈ entries) : Forest.FirstHolds forests entry.leaf entry.fragment := by
  have standFor := standFor_nil.foldlM_insert.1 entries success
  exact (standFor.first entry member).firstHolds

theorem exists_of_ofForests_error {conflict : Conflict} (failed : ofForests forests = .error conflict) :
    ∃ first second : Entry, Forest.FirstHolds forests first.leaf first.fragment ∧
      Forest.Holds forests second.leaf second.fragment ∧ first.leaf.Contradicts second.leaf ∧
        conflict = metadataConflict first second := by
  rcases standFor_nil.foldlM_insert.2 conflict failed with
    ⟨first, second, isFirst, member, contradicts, equal⟩
  exact ⟨first, second, isFirst.firstHolds, holds_of_mem member, contradicts, equal⟩

end Entry

/-! ## Names that compete -/

theorem Path.visitOrder_self (path : Path) : path.visitOrder path = .eq := by
  have swapped := visitOrder_swap path path
  revert swapped
  cases path.visitOrder path <;> decide

theorem lt_of_isLE_compare {left right : String} (before : (compare left right).isLE = true)
    (different : left ≠ right) : left < right := by
  apply Classical.byContradiction
  intro notBefore
  have behind : compare left right = .gt := by
    change compareOfLessAndEq left right = .gt
    rw [compareOfLessAndEq, if_neg notBefore, if_neg different]
  rw [behind] at before
  cases before

namespace Entry

namespace Binding

theorem of_conflict?_eq_some {earlier : List Binding} {binding : Binding} {conflict : Conflict}
    (found : binding.conflict? earlier = some conflict) : ∃ other ∈ earlier,
      binding.renamesOtherwise other = true ∧ conflict = .renames binding.path
        [other.name, binding.name] [other.fragment, binding.fragment] ∨
      binding.bindsOtherwise other = true ∧ conflict = .bindings binding.name
        [other.path, binding.path] [other.fragment, binding.fragment] := by
  unfold conflict? at found
  split at found
  · next other renamed =>
      cases found
      exact ⟨other, List.mem_of_find?_eq_some renamed, .inl ⟨List.find?_some renamed, rfl⟩⟩
  · split at found
    · next other bound =>
        cases found
        exact ⟨other, List.mem_of_find?_eq_some bound, .inr ⟨List.find?_some bound, rfl⟩⟩
    · cases found

theorem exists_of_firstConflict? {rest earlier : List Binding} {conflict : Conflict}
    (found : firstConflict? earlier rest = some conflict) : ∃ front binding back,
      rest = front ++ binding :: back ∧ binding.conflict? (earlier ++ front) = some conflict := by
  induction rest generalizing earlier with
  | nil => cases found
  | cons binding rest induction =>
      unfold firstConflict? at found
      split at found
      · next here =>
          cases found
          exact ⟨[], binding, rest, rfl, by rwa [List.append_nil]⟩
      · rcases induction found with ⟨front, later, back, rfl, here⟩
        rw [List.append_assoc, List.singleton_append] at here
        exact ⟨binding :: front, later, back, rfl, here⟩

end Binding

theorem pairwise_bindings {entries : List Entry}
    (valid : ∀ entry ∈ entries, entry.leaf.path ≠ [] ∧ entry.leaf.path.IsValid) :
    ((visit entries).filterMap binding?).Pairwise fun earlier later =>
      earlier.path = later.path → (compare earlier.name later.name).isLE = true := by
  rw [List.pairwise_filterMap]
  apply (pairwise_visit valid).imp_of_mem
  intro left right inLeft inRight precedes binding binds binding' binds' same
  rw [(visit_perm entries).mem_iff] at inLeft inRight
  rcases binding?_eq_some_iff.mp binds with ⟨name, rename, _, rfl⟩
  rcases binding?_eq_some_iff.mp binds' with ⟨name', rename', _, rfl⟩
  have path := Path.eq_of_text (valid left inLeft).2 (valid right inRight).2 (valid left inLeft).1
    (valid right inRight).1 same
  rw [Precedes, Leaf.visitOrder, path, Path.visitOrder_self, rename, rename'] at precedes
  exact precedes

/-- A conflict of names is that of two entries that compete, the first of them visited first. -/
theorem exists_of_bindingConflict? {entries : List Entry} {conflict : Conflict}
    (found : bindingConflict? entries = some conflict) :
    ∃ left ∈ entries, ∃ right ∈ entries, ∃ name name',
      left.leaf.rename = some name ∧ right.leaf.rename = some name' ∧
        left.leaf.Competes right.leaf ∧
          (left.leaf.path.text = right.leaf.path.text ∧ name ≠ name' ∧
              ((∀ entry ∈ entries, entry.leaf.path ≠ [] ∧ entry.leaf.path.IsValid) → name < name') ∧
              conflict =
                .renames left.leaf.path.text [name, name'] [left.fragment, right.fragment] ∨
            name = name' ∧ left.leaf.path.text ≠ right.leaf.path.text ∧
              conflict = .bindings name [left.leaf.path.text, right.leaf.path.text]
                [left.fragment, right.fragment]) := by
  rcases Binding.exists_of_firstConflict? found with ⟨front, binding, back, split, here⟩
  rw [List.nil_append] at here
  rcases Binding.of_conflict?_eq_some here with ⟨other, before, tells⟩
  have origin : ∀ one ∈ front ++ binding :: back, ∃ entry ∈ entries, entry.binding? = some one := by
    intro one member
    rw [← split] at member
    rcases List.mem_filterMap.mp member with ⟨entry, inside, binds⟩
    exact ⟨entry, (visit_perm entries).mem_iff.mp inside, binds⟩
  rcases origin other (List.mem_append_left _ before) with ⟨left, inLeft, binds⟩
  rcases origin binding (List.mem_append_right _ List.mem_cons_self) with ⟨right, inRight, binds'⟩
  have clashes : other.Clashes binding := by
    apply Binding.Clashes.symm
    exact tells.imp And.left And.left
  have competes := competes_iff_exists_clashes.mpr ⟨other, binding, binds, binds', clashes⟩
  have ordered : (∀ entry ∈ entries, entry.leaf.path ≠ [] ∧ entry.leaf.path.IsValid) →
      other.path = binding.path → (compare other.name binding.name).isLE = true := by
    intro valid
    have pairs := pairwise_bindings valid
    rw [split] at pairs
    exact (List.pairwise_append.mp pairs).2.2 other before binding List.mem_cons_self
  rcases binding?_eq_some_iff.mp binds with ⟨name, rename, _, rfl⟩
  rcases binding?_eq_some_iff.mp binds' with ⟨name', rename', _, rfl⟩
  refine ⟨left, inLeft, right, inRight, name, name', rename, rename', competes, ?_⟩
  rcases tells with ⟨renamed, equal⟩ | ⟨bound, equal⟩
  · simp only [Binding.renamesOtherwise, Bool.and_eq_true, decide_eq_true_eq] at renamed
    refine .inl ⟨renamed.1.1, renamed.1.2, ?_, by rw [equal, renamed.1.1]⟩
    intro valid
    exact lt_of_isLE_compare (ordered valid renamed.1.1) renamed.1.2
  · simp only [Binding.bindsOtherwise, Bool.and_eq_true, decide_eq_true_eq] at bound
    exact .inr ⟨bound.1.1, bound.1.2, by rw [equal, bound.1.1]⟩

end Entry

/-! ## What a merge reports -/

theorem Entry.ordered_perm (left right : String) : (ordered left right).Perm [left, right] := by
  unfold ordered
  split
  · exact List.Perm.refl _
  · exact List.Perm.swap _ _ []

theorem Entry.pairwise_ordered (left right : String) : (ordered left right).Pairwise (· ≤ ·) := by
  unfold ordered
  split
  · next before => exact List.pairwise_pair.mpr before
  · next behind => exact List.pairwise_pair.mpr (Std.le_of_not_ge behind)

theorem Leaf.text_congr {left right : Leaf} (path : left.path = right.path)
    (rename : left.rename = right.rename) : left.text = right.text := by
  rw [text, text, path, rename]

namespace Conflict

/-- Whether what a conflict tells is so. It tells of two imports that cannot be merged, the first of
them by the first forest that holds it. For a conflict of names the second is told by the first such
forest as well; for one of metadata by a forest that holds it. -/
def IsTrueOf (forests : List Forest) : Conflict → Prop
  | .renames path names fragments =>
      ∃ (left right : Leaf) (name name' : String) (number number' : Int),
        left.path.text = path ∧ right.path.text = path ∧ left.rename = some name ∧
          right.rename = some name' ∧ names = [name, name'] ∧ fragments = [number, number'] ∧
            Forest.FirstHolds forests left number ∧ Forest.FirstHolds forests right number' ∧
              left.Competes right ∧ name ≠ name' ∧ ((∀ leaf ∈ Forest.imports forests,
                leaf.path ≠ [] ∧ leaf.path.IsValid) → name < name')
  | .bindings name paths fragments =>
      ∃ (left right : Leaf) (number number' : Int),
        left.rename = some name ∧ right.rename = some name ∧
          paths = [left.path.text, right.path.text] ∧ fragments = [number, number'] ∧
            Forest.FirstHolds forests left number ∧ Forest.FirstHolds forests right number' ∧
              left.Competes right ∧ left.path.text ≠ right.path.text
  | .metadata path texts fragments =>
      ∃ (left right : Leaf) (number number' : Int),
        left.text = path ∧ right.text = path ∧
          texts.Perm [left.metadata.text, right.metadata.text] ∧ texts.Pairwise (· ≤ ·) ∧
            fragments = [number, number'] ∧ Forest.FirstHolds forests left number ∧
              Forest.Holds forests right number' ∧ left.Contradicts right

theorem isTrueOf_metadataConflict {forests : List Forest} {first second : Entry}
    (firstHolds : Forest.FirstHolds forests first.leaf first.fragment)
    (holds : Forest.Holds forests second.leaf second.fragment)
    (contradicts : first.leaf.Contradicts second.leaf) :
    (Entry.metadataConflict first second).IsTrueOf forests :=
  ⟨first.leaf, second.leaf, first.fragment, second.fragment, rfl,
    Leaf.text_congr contradicts.1.symm contradicts.2.1.symm, Entry.ordered_perm _ _,
    Entry.pairwise_ordered _ _, rfl, firstHolds, holds, contradicts⟩

theorem isTrueOf_bindingConflict? {forests : List Forest} {entries : List Entry} {conflict : Conflict}
    (success : Entry.ofForests forests = .ok entries)
    (found : Entry.bindingConflict? entries = some conflict) : conflict.IsTrueOf forests := by
  have first : ∀ entry ∈ entries, Forest.FirstHolds forests entry.leaf entry.fragment :=
    fun entry => Entry.firstHolds_of_mem success
  rcases Entry.exists_of_bindingConflict? found with
    ⟨left, inLeft, right, inRight, name, name', rename, rename', competes, tells⟩
  rcases tells with ⟨path, different, ordered, rfl⟩ | ⟨rfl, different, rfl⟩
  · refine ⟨left.leaf, right.leaf, name, name', left.fragment, right.fragment, rfl, path.symm, rename,
      rename', rfl, rfl, first left inLeft, first right inRight, competes, different, ?_⟩
    intro valid
    exact ordered fun entry member => valid entry.leaf (first entry member).mem_imports
  · exact ⟨left.leaf, right.leaf, left.fragment, right.fragment, rename, rename', rfl, rfl,
      first left inLeft, first right inRight, competes, different⟩

end Conflict

namespace MergedSet

/-- What the conflict tells that a merge fails with is so. -/
theorem isTrueOf_of_merge_eq_error {forests : List Forest} {absorbByRename : Bool}
    {conflict : Conflict} (failed : merge forests absorbByRename = .error conflict) :
    conflict.IsTrueOf forests := by
  cases collected : Entry.ofForests forests with
  | error conflict' =>
      simp only [merge, collected, bind, Except.bind] at failed
      cases failed
      rcases Entry.exists_of_ofForests_error collected with
        ⟨first, second, firstHolds, holds, contradicts, rfl⟩
      exact Conflict.isTrueOf_metadataConflict firstHolds holds contradicts
  | ok entries =>
      simp only [merge, collected, bind, Except.bind] at failed
      split at failed
      · next conflict' found =>
          cases failed
          exact Conflict.isTrueOf_bindingConflict? collected found
      · cases failed

/-- A rename that a later fragment repeats is told by the first fragment that holds it, and the names
come in their own order, not in that of the fragments. -/
theorem isTrueOf_of_merge_eq_error_repeated :
    merge [⟨4, [.leaf ⟨[.name "a", .name "b"], some "z", {}⟩]⟩,
        ⟨9, [.leaf ⟨[.name "a", .name "b", .self], some "x", {}⟩]⟩,
        ⟨2, [.group [.name "a"] [.leaf ⟨[.name "b"], some "x", {}⟩, .leaf ⟨[.glob], none, {}⟩]]⟩] true =
      .error (.renames "a::b" ["x", "z"] [9, 4]) ∧
    Conflict.IsTrueOf [⟨4, [.leaf ⟨[.name "a", .name "b"], some "z", {}⟩]⟩,
        ⟨9, [.leaf ⟨[.name "a", .name "b", .self], some "x", {}⟩]⟩,
        ⟨2, [.group [.name "a"] [.leaf ⟨[.name "b"], some "x", {}⟩, .leaf ⟨[.glob], none, {}⟩]]⟩]
      (.renames "a::b" ["x", "z"] [9, 4]) := by
  have failed : merge [⟨4, [.leaf ⟨[.name "a", .name "b"], some "z", {}⟩]⟩,
      ⟨9, [.leaf ⟨[.name "a", .name "b", .self], some "x", {}⟩]⟩,
      ⟨2, [.group [.name "a"] [.leaf ⟨[.name "b"], some "x", {}⟩, .leaf ⟨[.glob], none, {}⟩]]⟩] true =
        .error (.renames "a::b" ["x", "z"] [9, 4]) := by cbv
  exact ⟨failed, isTrueOf_of_merge_eq_error failed⟩

end MergedSet

end ImportBlock
