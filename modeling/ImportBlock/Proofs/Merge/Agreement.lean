import ImportBlock.Proofs.Merge.Survivors
import ImportBlock.Proofs.Merge.Visit

/-! A merge depends on what is imported only. The order of the fragments, how leaves are spread over
them and grouped, and which numbers they have make no difference beyond the fragments that a conflict
names. -/

namespace ImportBlock

namespace Entry.Binding

def forget (binding : Binding) : Binding := { binding with fragment := 0 }

end Entry.Binding

def Conflict.forget : Conflict → Conflict
  | .renames path names _ => .renames path names []
  | .bindings name paths _ => .bindings name paths []
  | .metadata path texts _ => .metadata path texts []

namespace Entry

namespace Binding

theorem forget_conflict? (earlier : List Binding) (binding : Binding) :
    (binding.forget.conflict? (earlier.map forget)).map Conflict.forget =
      (binding.conflict? earlier).map Conflict.forget := by
  have renamed : (earlier.map forget).find? binding.forget.renamesOtherwise =
      (earlier.find? binding.renamesOtherwise).map forget := List.find?_map
  have bound : (earlier.map forget).find? binding.forget.bindsOtherwise =
      (earlier.find? binding.bindsOtherwise).map forget := List.find?_map
  unfold conflict?
  rw [renamed, bound]
  cases earlier.find? binding.renamesOtherwise with
  | some other => rfl
  | none => cases earlier.find? binding.bindsOtherwise <;> rfl

theorem forget_firstConflict? (earlier rest : List Binding) :
    (firstConflict? (earlier.map forget) (rest.map forget)).map Conflict.forget =
      (firstConflict? earlier rest).map Conflict.forget := by
  induction rest generalizing earlier with
  | nil => rfl
  | cons binding rest induction =>
      have here := forget_conflict? earlier binding
      have later := induction (earlier ++ [binding])
      rw [List.map_append, List.map_singleton] at later
      rw [List.map_cons]
      unfold firstConflict?
      revert here
      cases binding.conflict? earlier <;>
        cases binding.forget.conflict? (earlier.map forget) <;> simp [later]

end Binding

theorem map_forget_filterMap_binding? (entries : List Entry) :
    (entries.filterMap binding?).map Binding.forget =
      (entries.map (·.leaf)).filterMap fun leaf => binding? ⟨leaf, 0⟩ := by
  rw [List.map_filterMap, List.filterMap_map]
  apply List.filterMap_congr
  intro entry _
  simp only [Function.comp, binding?]
  cases entry.leaf.rename with
  | none => rfl
  | some name => by_cases discarded : name = "_" <;> simp [discarded, Binding.forget]

theorem bindingConflict?_agree {left right : List Entry} (leftSeparate : Separate left)
    (rightSeparate : Separate right)
    (equal : ∀ leaf, leaf ∈ left.map (·.leaf) ↔ leaf ∈ right.map (·.leaf))
    (valid : ∀ entry ∈ left, entry.leaf.path ≠ [] ∧ entry.leaf.path.IsValid) :
    (bindingConflict? left).map Conflict.forget =
      (bindingConflict? right).map Conflict.forget := by
  have visited := map_leaf_visit_eq leftSeparate rightSeparate equal valid
  unfold bindingConflict?
  rw [← Binding.forget_firstConflict? [] ((visit left).filterMap binding?),
    ← Binding.forget_firstConflict? [] ((visit right).filterMap binding?),
    map_forget_filterMap_binding?, map_forget_filterMap_binding?, visited]

end Entry

namespace MergedSet

/-- Whether two merges end alike: with the same trees, with metadata conflicts, or with the same
conflict of names, whatever the fragments are. -/
def EndAlike : Except Conflict MergedSet → Except Conflict MergedSet → Prop
  | .ok left, .ok right => left.same right = true
  | .error (.metadata _ _ _), .error (.metadata _ _ _) => True
  | .error (.renames path names _), .error (.renames path' names' _) =>
      path = path' ∧ names = names'
  | .error (.bindings name paths _), .error (.bindings name' paths' _) =>
      name = name' ∧ paths = paths'
  | _, _ => False

theorem endAlike_of_forget_eq {left right : Conflict} (equal : left.forget = right.forget) :
    EndAlike (.error left) (.error right) := by
  cases left <;> cases right <;> simp_all [Conflict.forget, EndAlike]

theorem same_of_mem_iff {absorbByRename : Bool} {left right : List Leaf}
    (equal : ∀ leaf, leaf ∈ left ↔ leaf ∈ right) :
    same ⟨Tree.factor (Leaf.absorb absorbByRename left)⟩
      ⟨Tree.factor (Leaf.absorb absorbByRename right)⟩ = true := by
  apply Tree.factor_sameSet
  intro leaf
  simp only [Leaf.mem_absorb, equal]

/-- Forests that import the same are merged alike. -/
theorem merge_endAlike {left right : List Forest} (absorbByRename : Bool)
    (equal : ∀ leaf, leaf ∈ Forest.imports left ↔ leaf ∈ Forest.imports right)
    (valid : ∀ leaf ∈ Forest.imports left, leaf.path ≠ [] ∧ leaf.path.IsValid) :
    EndAlike (merge left absorbByRename) (merge right absorbByRename) := by
  have contradictory : Forest.Contradictory left ↔ Forest.Contradictory right := by
    simp only [Forest.Contradictory, equal]
  rcases merge_cases left absorbByRename with
    ⟨first, second, inFirst, inSecond, contradicts, failed⟩ | ⟨entries, collects, ends⟩
  · rcases merge_cases right absorbByRename with
      ⟨first', second', _, _, _, failed'⟩ | ⟨entries', collects', _⟩
    · rw [failed, failed']
      trivial
    · exact absurd (contradictory.mp ⟨_, inFirst, _, inSecond, contradicts⟩)
        collects'.not_contradictory
  · rcases merge_cases right absorbByRename with
      ⟨first', second', inFirst', inSecond', contradicts', _⟩ | ⟨entries', collects', ends'⟩
    · exact absurd (contradictory.mpr ⟨_, inFirst', _, inSecond', contradicts'⟩)
        collects.not_contradictory
    · have sameLeaves : ∀ leaf, leaf ∈ entries.map (·.leaf) ↔ leaf ∈ entries'.map (·.leaf) := by
        intro leaf
        rw [collects.leaves, collects'.leaves, equal]
      have agree := Entry.bindingConflict?_agree collects.separate collects'.separate sameLeaves
        fun entry member => valid _ ((collects.leaves _).mp (List.mem_map_of_mem member))
      rcases ends with ⟨conflict, found, failed⟩ | ⟨none, success⟩
      · rcases ends' with ⟨conflict', found', failed'⟩ | ⟨none', _⟩
        · rw [failed, failed']
          rw [found, found'] at agree
          exact endAlike_of_forget_eq (Option.some.inj agree)
        · rw [found, none'] at agree
          cases agree
      · rcases ends' with ⟨conflict', found', _⟩ | ⟨_, success'⟩
        · rw [none, found'] at agree
          cases agree
        · rw [success, success']
          exact same_of_mem_iff sameLeaves

theorem merge_endAlike_two_fragments :
    (merge [⟨0, [.leaf ⟨[.name "a", .name "b"], some "x", {}⟩]⟩,
          ⟨1, [.leaf ⟨[.name "c", .name "d"], some "x", {}⟩]⟩] true =
        .error (.bindings "x" ["a::b", "c::d"] [0, 1]) ∧
      EndAlike
        (merge [⟨0, [.leaf ⟨[.name "a", .name "b"], some "x", {}⟩]⟩,
          ⟨1, [.leaf ⟨[.name "c", .name "d"], some "x", {}⟩]⟩] true)
        (merge [⟨5, [.leaf ⟨[.name "c", .name "d"], some "x", {}⟩,
          .group [.name "a"] [.leaf ⟨[.name "b"], some "x", {}⟩,
            .leaf ⟨[.name "b", .self], some "x", {}⟩]]⟩] true)) ∧
    merge [⟨0, [.leaf ⟨[.name "a", .name "b"], none, {}⟩]⟩,
        ⟨1, [.leaf ⟨[.name "a", .glob], none, {}⟩, .leaf ⟨[.name "a", .name "c"], some "x", {}⟩]⟩] true =
      .ok ⟨[.group [.name "a"] [.leaf ⟨[.glob], none, {}⟩, .leaf ⟨[.name "c"], some "x", {}⟩]]⟩ ∧
    EndAlike
      (merge [⟨0, [.leaf ⟨[.name "a", .name "b"], none, {}⟩]⟩,
        ⟨1, [.leaf ⟨[.name "a", .glob], none, {}⟩, .leaf ⟨[.name "a", .name "c"], some "x", {}⟩]⟩] true)
      (merge [⟨3, [.group [.name "a"] [.leaf ⟨[.name "c"], some "x", {}⟩, .leaf ⟨[.glob], none, {}⟩,
        .leaf ⟨[.name "b", .self], none, {}⟩]]⟩] true) := by
  refine ⟨⟨by cbv, merge_endAlike true ?_ (by decide)⟩, by cbv, merge_endAlike true ?_ (by decide)⟩
  all_goals
    intro leaf
    simp [Forest.imports, Forest.leaves, Tree.allLeaves, Tree.leaves, Leaf.under, Leaf.canonical,
      Leaf.dropSelf, Segment.name, Segment.self, Segment.glob]
    tauto

end MergedSet

end ImportBlock
