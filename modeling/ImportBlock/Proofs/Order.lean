import ImportBlock.Tree.OrderLaws
import Mathlib.Data.List.Perm.Basic
import Mathlib.Data.List.Zip

/-! Sorting by keys. Two lists that hold the same keys are sorted into lists that have the same key in
each place, whatever the orders were in which they listed their members. -/

namespace ImportBlock

/-! ## Lists that agree place by place -/

section Forall₂

variable {α β : Type} {first second : α → β → Prop} {left : List α} {right : List β}

theorem forall₂_imp_of_mem (each : List.Forall₂ first left right)
    (implies : ∀ one ∈ left, ∀ other ∈ right, first one other → second one other) :
    List.Forall₂ second left right := by
  induction each with
  | nil => exact .nil
  | cons holds _ induction =>
      refine .cons (implies _ List.mem_cons_self _ List.mem_cons_self holds) (induction ?_)
      intro one member other member'
      exact implies one (List.mem_cons_of_mem _ member) other (List.mem_cons_of_mem _ member')

theorem exists_zip_of_mem_left (each : List.Forall₂ first left right) {one : α}
    (member : one ∈ left) : ∃ other, (one, other) ∈ left.zip right ∧ first one other := by
  induction each with
  | nil => cases member
  | cons holds _ induction =>
      rcases List.mem_cons.mp member with rfl | inside
      · exact ⟨_, List.mem_cons_self, holds⟩
      · rcases induction inside with ⟨other, found, holds'⟩
        exact ⟨other, List.mem_cons_of_mem _ found, holds'⟩

theorem exists_zip_of_mem_right (each : List.Forall₂ first left right) {other : β}
    (member : other ∈ right) : ∃ one, (one, other) ∈ left.zip right ∧ first one other := by
  rcases exists_zip_of_mem_left each.flip member with ⟨one, found, holds⟩
  exact ⟨one, List.zip_swap right left ▸ List.mem_map_of_mem found, holds⟩

theorem exists_of_mem_of_forall₂ (each : List.Forall₂ first left right) {one : α}
    (member : one ∈ left) : ∃ other ∈ right, first one other := by
  rcases exists_zip_of_mem_left each member with ⟨other, found, holds⟩
  exact ⟨other, (List.of_mem_zip found).2, holds⟩

end Forall₂

section Keys

variable {α κ : Type} {key : α → κ} {left right : List α}

theorem forall₂_key_iff :
    List.Forall₂ (fun one other => key one = key other) left right ↔
      left.map key = right.map key := by
  rw [← List.forall₂_eq_eq_eq, List.forall₂_map_left_iff, List.forall₂_map_right_iff]

theorem exists_forall₂_of_map_perm (perm : (left.map key).Perm (right.map key)) :
    ∃ between, List.Forall₂ (fun one other => key one = key other) left between ∧
      between.Perm right := by
  have composed : Relation.Comp List.Perm (List.Forall₂ fun image one => image = key one)
      (left.map key) right := by
    refine ⟨right.map key, perm, ?_⟩
    rw [List.forall₂_map_left_iff, List.forall₂_same]
    exact fun _ _ => rfl
  rw [← List.forall₂_comp_perm_eq_perm_comp_forall₂] at composed
  rcases composed with ⟨between, each, order⟩
  exact ⟨between, List.forall₂_map_left_iff.mp each, order⟩

/-! ## Sorting -/

theorem pairwise_mergeSort_isLE (order : α → α → Ordering) [Std.TransCmp order]
    (items : List α) : (items.mergeSort fun left right => (order left right).isLE).Pairwise
      fun left right => (order left right).isLE := by
  apply List.pairwise_mergeSort (fun _ _ _ => Std.TransCmp.isLE_trans)
  intro left right
  have swapped : order left right = (order right left).swap := Std.OrientedCmp.eq_swap
  rw [swapped]
  cases order right left <;> rfl

variable (order : κ → κ → Ordering) [Std.TransCmp order] [Std.LawfulEqCmp order]

theorem mergeSort_isLE_eq_of_perm {left right : List κ} (perm : left.Perm right) :
    (left.mergeSort fun one other => (order one other).isLE) =
      right.mergeSort fun one other => (order one other).isLE := by
  have sorted := (List.mergeSort_perm left fun one other => (order one other).isLE).trans
    (perm.trans (List.mergeSort_perm right fun one other => (order one other).isLE).symm)
  refine sorted.eq_of_pairwise ?_ (pairwise_mergeSort_isLE order left)
    (pairwise_mergeSort_isLE order right)
  intro one other _ _ before behind
  exact Std.LawfulEqCmp.eq_of_compare (Std.OrientedCmp.isLE_antisymm before behind)

theorem forall₂_mergeSort_of_perm (perm : (left.map key).Perm (right.map key)) :
    List.Forall₂ (fun one other => key one = key other)
      (left.mergeSort fun one other => (order (key one) (key other)).isLE)
      (right.mergeSort fun one other => (order (key one) (key other)).isLE) := by
  have moved : ∀ items : List α,
      (items.mergeSort fun one other => (order (key one) (key other)).isLE).map key =
        (items.map key).mergeSort fun one other => (order one other).isLE :=
    fun items => List.map_mergeSort fun _ _ _ _ => rfl
  rw [forall₂_key_iff, moved, moved]
  exact mergeSort_isLE_eq_of_perm order perm

end Keys

end ImportBlock
