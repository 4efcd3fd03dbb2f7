import ImportBlock.Tree.Factor
import Mathlib.Data.List.Perm.Basic

/-! What gathering keeps. The keys are all different, the members of the gathered lists are the
items, and permuted items give permuted lists under the same keys. -/

namespace ImportBlock

theorem nodup_eraseDups {α : Type} [BEq α] [LawfulBEq α] (items : List α) :
    items.eraseDups.Nodup := by
  match items with
  | [] => exact List.nodup_nil
  | head :: rest =>
      rw [List.eraseDups_cons, List.nodup_cons]
      refine ⟨?_, nodup_eraseDups (rest.filter fun item => !item == head)⟩
      simp [List.mem_eraseDups]
termination_by items.length
decreasing_by
  simpa using Nat.lt_succ_of_le (List.length_filter_le (fun item => !item == head) rest)

theorem eraseDups_perm {α : Type} [BEq α] [LawfulBEq α] {left right : List α}
    (equal : ∀ item, item ∈ left ↔ item ∈ right) : left.eraseDups.Perm right.eraseDups := by
  rw [List.perm_ext_iff_of_nodup (nodup_eraseDups left) (nodup_eraseDups right)]
  intro item
  rw [List.mem_eraseDups, List.mem_eraseDups]
  exact equal item

theorem eraseDups_eq_self {α : Type} [BEq α] [LawfulBEq α] {items : List α}
    (nodup : items.Nodup) : items.eraseDups = items := by
  induction items with
  | nil => rfl
  | cons head rest induction =>
      have parts := List.nodup_cons.mp nodup
      have others : (rest.filter fun item => !item == head) = rest := by
        rw [List.filter_eq_self]
        intro item member
        simp only [Bool.not_eq_true', beq_eq_false_iff_ne]
        intro equal
        exact parts.1 (equal ▸ member)
      rw [List.eraseDups_cons, others, induction parts.2]

theorem map_map_eq_self {α β : Type} {change : α → β} {restore : β → α} {items : List α}
    (restores : ∀ item ∈ items, restore (change item) = item) :
    (items.map change).map restore = items := by
  rw [List.map_map]
  exact (List.map_congr_left restores).trans (List.map_id items)

theorem filter_le_append_filter_lt_perm {α : Type} (measure : α → Nat) (bound : Nat)
    (items : List α) :
    ((items.filter fun item => measure item ≤ bound) ++
      items.filter fun item => bound < measure item).Perm items := by
  have beyond : (items.filter fun item => bound < measure item) =
      items.filter fun item => !decide (measure item ≤ bound) := by
    apply List.filter_congr
    intro item _
    rw [← decide_not, decide_eq_decide, Nat.not_le]
  rw [beyond]
  exact List.filter_append_perm _ items

variable {α κ : Type} [BEq κ] [LawfulBEq κ] {key : α → κ}

/-- Different keys that cover all items divide the items among them. -/
theorem flatMap_filter_key_perm {keys : List κ} (nodup : keys.Nodup) (items : List α)
    (covered : ∀ item ∈ items, key item ∈ keys) :
    (keys.flatMap fun k => items.filter fun item => key item == k).Perm items := by
  induction keys generalizing items with
  | nil =>
      cases items with
      | nil => exact List.Perm.refl _
      | cons item rest => cases covered item List.mem_cons_self
  | cons head keys induction =>
      have parts := List.nodup_cons.mp nodup
      have later : (keys.flatMap fun k => items.filter fun item => key item == k) =
          keys.flatMap fun k =>
            (items.filter fun item => !(key item == head)).filter fun item => key item == k := by
        apply List.flatMap_congr
        intro k member
        rw [List.filter_filter]
        apply List.filter_congr
        intro item _
        have different : k ≠ head := fun equal => parts.1 (equal ▸ member)
        by_cases equal : key item = k
        · simp [equal, different]
        · simp [equal]
      rw [List.flatMap_cons, later]
      refine List.Perm.trans (List.Perm.append_left _ (induction parts.2 _ ?_))
        (List.filter_append_perm _ items)
      intro item member
      rw [List.mem_filter] at member
      have inside := covered item member.1
      simp only [Bool.not_eq_true', beq_eq_false_iff_ne] at member
      exact (List.mem_cons.mp inside).resolve_left member.2

theorem flatMap_gather_perm (key : α → κ) (items : List α) :
    ((gather key items).flatMap (·.2)).Perm items := by
  rw [gather, List.flatMap_map]
  apply flatMap_filter_key_perm (nodup_eraseDups _)
  intro item member
  rw [List.mem_eraseDups]
  exact List.mem_map_of_mem member

theorem nodup_map_fst_gather (key : α → κ) (items : List α) :
    ((gather key items).map (·.1)).Nodup := by
  simp only [gather, List.map_map]
  exact (List.map_id _).symm ▸ nodup_eraseDups _

theorem length_gather_of_perm {left right : List α} (perm : left.Perm right) :
    (gather key left).length = (gather key right).length := by
  simp only [gather, List.length_map]
  refine (eraseDups_perm fun k => ?_).length_eq
  exact (perm.map key).mem_iff

theorem of_mem_gather {items members : List α} {k : κ}
    (gathered : (k, members) ∈ gather key items) :
    members ≠ [] ∧ ∀ item ∈ members, item ∈ items ∧ key item = k := by
  rw [mem_gather] at gathered
  rcases gathered with ⟨⟨item, member, equal⟩, rfl⟩
  constructor
  · exact List.ne_nil_of_mem (List.mem_filter.mpr ⟨member, by simp [equal]⟩)
  · intro other inside
    simpa using List.mem_filter.mp inside

theorem gather_of_perm {left right members : List α} {k : κ} (perm : left.Perm right)
    (gathered : (k, members) ∈ gather key left) :
    ∃ members', (k, members') ∈ gather key right ∧ members.Perm members' := by
  rw [mem_gather] at gathered
  rcases gathered with ⟨⟨item, member, equal⟩, rfl⟩
  exact ⟨_, mem_gather.mpr ⟨⟨item, perm.mem_iff.mp member, equal⟩, rfl⟩, perm.filter _⟩

end ImportBlock
