import ImportBlock.Proofs.Tree.Order
import ImportBlock.Proofs.Tree.Printer

/-! Trees whose groups list their children in different orders. They are equal as nests of sets, they
have the same leaves and the same sort key, and they are written alike. Where all segments are valid,
trees of one sort key differ in these orders only. -/

namespace ImportBlock

namespace Tree

/-- Whether two trees differ in nothing but the orders in which their groups list the children. -/
inductive Rearranges : Tree → Tree → Prop
  | leaf (item : Leaf) : Rearranges (.leaf item) (.leaf item)
  | group (stem : Path) {children between children' : List Tree}
      (each : List.Forall₂ Rearranges children between) (order : between.Perm children') :
      Rearranges (.group stem children) (.group stem children')

inductive IsValid : Tree → Prop
  | leaf {item : Leaf} (path : item.path.IsValid) : IsValid (.leaf item)
  | group {stem : Path} {children : List Tree} (stemValid : stem.IsValid)
      (valid : ∀ child ∈ children, IsValid child) : IsValid (.group stem children)

theorem IsValid.child {stem : Path} {children : List Tree}
    (valid : (Tree.group stem children).IsValid) {child : Tree} (member : child ∈ children) :
    child.IsValid := by
  cases valid with
  | group _ valid => exact valid child member

theorem IsValid.path {tree : Tree} (valid : tree.IsValid) :
    ∀ leaf ∈ tree.leaves, leaf.path.IsValid := by
  induction valid with
  | leaf path =>
      intro leaf member
      rwa [List.mem_singleton.mp member]
  | group stemValid _ induction =>
      intro leaf member
      rcases mem_leaves_group.mp member with ⟨child, inside, inner, lies, rfl⟩
      exact List.forall_mem_append.mpr ⟨stemValid, induction child inside inner lies⟩

theorem sortKeys_eq_map (children : List Tree) : sortKeys children = children.map sortKey := by
  induction children with
  | nil => rfl
  | cons child rest induction => rw [sortKeys, induction, List.map_cons]

theorem allLeaves_perm_of_forall₂ {left right : List Tree}
    (each : List.Forall₂ (fun tree other => tree.leaves.Perm other.leaves) left right) :
    (allLeaves left).Perm (allLeaves right) := by
  induction each with
  | nil => exact List.Perm.refl _
  | cons perm _ induction => exact perm.append induction

theorem inKeyOrder_eq_of_perm {α : Type} {left right : List (SortKey × α)} (perm : left.Perm right)
    (determined : ∀ one ∈ left, ∀ other ∈ left, one.1 = other.1 → one = other) :
    inKeyOrder left = inKeyOrder right := by
  let byKey := fun (one other : SortKey × α) => one.1.le other.1
  have each : List.Forall₂ (fun one other => one.1 = other.1) (left.mergeSort byKey)
      (right.mergeSort byKey) := forall₂_mergeSort_of_perm compare (perm.map Prod.fst)
  have equal : List.Forall₂ Eq (left.mergeSort byKey) (right.mergeSort byKey) := by
    refine forall₂_imp_of_mem each ?_
    intro one inLeft other inRight keys
    have member := List.mem_mergeSort.mp inLeft
    have member' := perm.mem_iff.mpr (List.mem_mergeSort.mp inRight)
    exact determined one member other member' keys
  rw [List.forall₂_eq_eq_eq] at equal
  exact congrArg (List.map (·.2)) equal

theorem rearranges_of_sortKey : ∀ {left right : Tree}, left.IsValid → right.IsValid →
    left.sortKey = right.sortKey → left.Rearranges right
  | .leaf item, .leaf item', .leaf path, .leaf path', equal => by
      rw [Leaf.eq_of_sortKey path path' equal]
      exact .leaf item'
  | .leaf _, .group _ _, _, _, equal => by simp [sortKey] at equal
  | .group _ _, .leaf _, _, _, equal => by simp [sortKey] at equal
  | .group stem children, .group stem' children', .group stemValid valid,
      .group stemValid' valid', equal => by
      simp only [sortKey, SortKey.group.injEq] at equal
      obtain rfl := Path.eq_of_ranks stemValid stemValid' equal.1
      have keys := List.mergeSort_perm (sortKeys children) SortKey.le
      rw [equal.2] at keys
      replace keys := keys.symm.trans (List.mergeSort_perm (sortKeys children') SortKey.le)
      rw [sortKeys_eq_map, sortKeys_eq_map] at keys
      rcases exists_forall₂_of_map_perm keys with ⟨between, each, order⟩
      refine .group stem (forall₂_imp_of_mem each ?_) order
      intro child member other member' same
      exact rearranges_of_sortKey (valid child member) (valid' other (order.mem_iff.mp member'))
        same

namespace Rearranges

theorem same : ∀ {left right : Tree}, left.Rearranges right → left.same right = true
  | .leaf item, _, .leaf _ => same_refl (.leaf item)
  | .group stem children, _, @group _ _ between _ each order => by
      have equal : List.Forall₂ (fun child other => child.same other = true) children between :=
        forall₂_imp_of_mem each fun _ _ _ _ rearranges => same rearranges
      rw [same_group]
      refine ⟨rfl, ?_, ?_⟩
      · intro child member
        rcases exists_of_mem_of_forall₂ equal member with ⟨other, inside, holds⟩
        exact ⟨other, order.mem_iff.mp inside, holds⟩
      · intro other member
        exact exists_of_mem_of_forall₂ equal.flip (order.mem_iff.mpr member)

theorem isValid : ∀ {left right : Tree}, left.Rearranges right → left.IsValid → right.IsValid
  | .leaf _, _, .leaf _, valid => valid
  | .group _ _, _, .group _ each order, .group stemValid valid => by
      refine .group stemValid ?_
      intro other member
      rcases exists_of_mem_of_forall₂ each.flip (order.mem_iff.mpr member) with
        ⟨child, inside, rearranges⟩
      exact isValid rearranges (valid child inside)

theorem root?_eq {left right : Tree} (rearranges : left.Rearranges right) :
    left.root? = right.root? := by
  cases rearranges <;> rfl

theorem leaves_perm : ∀ {left right : Tree}, left.Rearranges right →
    left.leaves.Perm right.leaves
  | .leaf item, _, .leaf _ => List.Perm.refl _
  | .group stem children, _, @group _ _ between _ each order => by
      have moved : (allLeaves children).Perm (allLeaves between) :=
        allLeaves_perm_of_forall₂ <|
          forall₂_imp_of_mem each fun _ _ _ _ rearranges => leaves_perm rearranges
      rw [leaves, leaves]
      exact (moved.trans (allLeaves_perm order)).map _

theorem sortKey_eq : ∀ {left right : Tree}, left.Rearranges right → left.sortKey = right.sortKey
  | .leaf _, _, .leaf _ => rfl
  | .group stem children, _, @group _ _ between children' each order => by
      have keys : children.map sortKey = between.map sortKey :=
        forall₂_key_iff.mp <|
          forall₂_imp_of_mem each fun _ _ _ _ rearranges => sortKey_eq rearranges
      have perm : (sortKeys children).Perm (sortKeys children') := by
        rw [sortKeys_eq_map, sortKeys_eq_map, keys]
        exact order.map _
      have sorted : (sortKeys children).mergeSort SortKey.le =
          (sortKeys children').mergeSort SortKey.le := mergeSort_isLE_eq_of_perm compare perm
      rw [sortKey, sortKey, sorted]

theorem source_eq : ∀ {left right : Tree}, left.Rearranges right → left.IsValid →
    left.source = right.source
  | .leaf _, _, .leaf _, _ => rfl
  | .group stem children, _, @group _ _ between children' each order, valid => by
      let written := fun child : Tree => (child.sortKey, child.source)
      have alike : ∀ child ∈ children, ∀ other : Tree, child.Rearranges other →
          written child = written other :=
        fun child member other rearranges => Prod.ext_iff.mpr
          ⟨sortKey_eq rearranges, source_eq rearranges (valid.child member)⟩
      have texts : children.map written = between.map written :=
        forall₂_key_iff.mp <|
          forall₂_imp_of_mem each fun child member other _ => alike child member other
      have perm : (sources children).Perm (sources children') := by
        rw [sources_eq_map, sources_eq_map]
        exact texts ▸ order.map written
      have determined : ∀ one ∈ sources children, ∀ other ∈ sources children,
          one.1 = other.1 → one = other := by
        rw [sources_eq_map]
        intro one inLeft other inRight keys
        rcases List.mem_map.mp inLeft with ⟨child, member, rfl⟩
        rcases List.mem_map.mp inRight with ⟨child', member', rfl⟩
        exact alike child member child'
          (rearranges_of_sortKey (valid.child member) (valid.child member') keys)
      rw [source, source, inKeyOrder_eq_of_perm perm determined]

end Rearranges

end Tree

end ImportBlock
