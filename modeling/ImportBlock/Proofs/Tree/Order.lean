import ImportBlock.Proofs.Order

/-! What sort keys tell apart. Segments, paths and leaves of one key are equal if their segments are
valid, so that leaves can be put into one order only. -/

namespace ImportBlock

namespace Segment

theorem eq_of_rank {left right : Segment} (leftValid : left.isValid = true)
    (rightValid : right.isValid = true) (equal : left.rank = right.rank) : left = right := by
  rcases left with ⟨kind, text⟩
  rcases right with ⟨kind', text'⟩
  cases kind <;> cases kind' <;>
    simp_all [isValid, rank, SegmentKind.marker?, Identifier.isPathKeyword]

end Segment

namespace Path

def IsValid (path : Path) : Prop := ∀ segment ∈ path, segment.isValid = true

instance (path : Path) : Decidable path.IsValid :=
  inferInstanceAs (Decidable (∀ segment ∈ path, segment.isValid = true))

theorem IsValid.tail {first : Segment} {rest : Path} (valid : IsValid (first :: rest)) :
    IsValid rest := fun segment member => valid segment (List.mem_cons_of_mem _ member)

theorem eq_of_ranks {left right : Path} (leftValid : left.IsValid) (rightValid : right.IsValid)
    (equal : left.ranks = right.ranks) : left = right := by
  induction left generalizing right with
  | nil => exact (List.map_eq_nil_iff.mp equal.symm).symm
  | cons first rest induction =>
      cases right with
      | nil => cases equal
      | cons first' rest' =>
          have ranks := List.cons_eq_cons.mp equal
          rw [Segment.eq_of_rank (leftValid _ List.mem_cons_self)
            (rightValid _ List.mem_cons_self) ranks.1,
            induction leftValid.tail rightValid.tail ranks.2]

end Path

namespace Leaf

theorem eq_of_sortKey {left right : Leaf} (leftValid : left.path.IsValid)
    (rightValid : right.path.IsValid) (equal : left.sortKey = right.sortKey) : left = right := by
  rcases left with ⟨path, rename, metadata⟩
  rcases right with ⟨path', rename', metadata'⟩
  rcases SortKey.leaf.inj equal with ⟨ranks, renames, metadatas⟩
  exact Leaf.mk.injEq .. ▸ ⟨Path.eq_of_ranks leftValid rightValid ranks, renames, metadatas⟩

theorem sorted_eq_of_perm {left right : List Leaf} (valid : ∀ leaf ∈ left, leaf.path.IsValid)
    (perm : left.Perm right) : sorted left = sorted right := by
  have each : List.Forall₂ (fun one other => one.sortKey = other.sortKey) (sorted left)
      (sorted right) := forall₂_mergeSort_of_perm compare (perm.map sortKey)
  have leftPerm : (sorted left).Perm left := List.mergeSort_perm _ _
  have rightPerm : (sorted right).Perm right := List.mergeSort_perm _ _
  rw [← List.forall₂_eq_eq_eq]
  refine forall₂_imp_of_mem each ?_
  intro first inLeft second inRight equal
  have firstValid := valid first (leftPerm.mem_iff.mp inLeft)
  have secondValid := valid second (perm.mem_iff.mpr (rightPerm.mem_iff.mp inRight))
  exact eq_of_sortKey firstValid secondValid equal

end Leaf

end ImportBlock
