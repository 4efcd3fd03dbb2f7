import ImportBlock.Tree.Order

/-! Sort keys are in a linear order: any two of them can be compared, and two keys that each come
no later than the other are one key. -/

namespace ImportBlock.SortKey

mutual
theorem compare_swap : ∀ left right : SortKey, compare left right = (compare right left).swap
  | .leaf path rename metadata, .leaf path' rename' metadata' => by
      simp only [compare, Ordering.swap_then]
      rw [Std.OrientedOrd.eq_swap (a := path), Std.OrientedOrd.eq_swap (a := rename),
        Std.OrientedOrd.eq_swap (a := metadata)]
  | .leaf path _ _, .group stem _ => by
      simp only [compare, Ordering.swap_then, Ordering.swap_gt]
      rw [Std.OrientedOrd.eq_swap (a := path)]
  | .group stem _, .leaf path _ _ => by
      simp only [compare, Ordering.swap_then, Ordering.swap_lt]
      rw [Std.OrientedOrd.eq_swap (a := stem)]
  | .group stem children, .group stem' children' => by
      simp only [compare, Ordering.swap_then]
      rw [Std.OrientedOrd.eq_swap (a := stem), compareAll_swap children children']

theorem compareAll_swap : ∀ left right : List SortKey,
    compareAll left right = (compareAll right left).swap
  | [], [] => rfl
  | [], _ :: _ => rfl
  | _ :: _, [] => rfl
  | key :: rest, key' :: rest' => by
      simp only [compareAll, Ordering.swap_then]
      rw [compare_swap key key', compareAll_swap rest rest']
end

mutual
theorem eq_of_compare : ∀ {left right : SortKey}, compare left right = .eq → left = right
  | .leaf path rename metadata, .leaf path' rename' metadata', equal => by
      simp only [compare, Ordering.then_eq_eq] at equal
      rw [Std.LawfulEqOrd.eq_of_compare equal.1, Std.LawfulEqOrd.eq_of_compare equal.2.1,
        Std.LawfulEqOrd.eq_of_compare equal.2.2]
  | .leaf _ _ _, .group _ _, equal => by simp [compare, Ordering.then_eq_eq] at equal
  | .group _ _, .leaf _ _ _, equal => by simp [compare, Ordering.then_eq_eq] at equal
  | .group stem children, .group stem' children', equal => by
      simp only [compare, Ordering.then_eq_eq] at equal
      rw [Std.LawfulEqOrd.eq_of_compare equal.1, eq_of_compareAll equal.2]

theorem eq_of_compareAll : ∀ {left right : List SortKey}, compareAll left right = .eq → left = right
  | [], [], _ => rfl
  | [], _ :: _, equal => by simp [compareAll] at equal
  | _ :: _, [], equal => by simp [compareAll] at equal
  | key :: rest, key' :: rest', equal => by
      simp only [compareAll, Ordering.then_eq_eq] at equal
      rw [eq_of_compare equal.1, eq_of_compareAll equal.2]
end

theorem isLE_then_trans {α : Type} [Ord α] [Std.TransOrd α] {left middle right : α}
    {first second third : Ordering}
    (chain : first.isLE → second.isLE → third.isLE)
    (before : ((Ord.compare left middle).then first).isLE)
    (behind : ((Ord.compare middle right).then second).isLE) :
    ((Ord.compare left right).then third).isLE := by
  rw [Ordering.isLE_then_iff_or] at before behind ⊢
  rcases before with before | ⟨before, first⟩
  · rcases behind with behind | ⟨behind, _⟩
    · exact .inl (Std.TransCmp.lt_trans before behind)
    · exact .inl (Std.TransCmp.lt_of_lt_of_eq before behind)
  · rcases behind with behind | ⟨behind, second⟩
    · exact .inl (Std.TransCmp.lt_of_eq_of_lt before behind)
    · exact .inr ⟨Std.TransCmp.eq_trans before behind, chain first second⟩

theorem lt_of_isLE_trans {left middle right : SortKey}
    (chain : (compare left middle).isLE → (compare middle right).isLE → (compare left right).isLE)
    (before : compare left middle = .lt) (behind : (compare middle right).isLE) :
    compare left right = .lt := by
  have whole := chain (by simp [before]) behind
  cases order : compare left right with
  | lt => rfl
  | eq =>
    obtain rfl := eq_of_compare order
    simp [compare_swap middle left, before] at behind
  | gt => simp [order] at whole

mutual
theorem isLE_trans : ∀ left middle right : SortKey, (compare left middle).isLE →
    (compare middle right).isLE → (compare left right).isLE
  | .leaf _ _ _, .leaf _ _ _, .leaf _ _ _ =>
      isLE_then_trans (isLE_then_trans Std.TransCmp.isLE_trans)
  | .leaf _ _ _, .leaf _ _ _, .group _ _ => isLE_then_trans fun _ second => second
  | .leaf _ _ _, .group _ _, .leaf _ _ _ => isLE_then_trans fun _ second => nomatch second
  | .leaf _ _ _, .group _ _, .group _ _ => isLE_then_trans fun first _ => first
  | .group _ _, .leaf _ _ _, .leaf _ _ _ => isLE_then_trans fun first _ => first
  | .group _ _, .leaf _ _ _, .group _ _ => isLE_then_trans fun first _ => nomatch first
  | .group _ _, .group _ _, .leaf _ _ _ => isLE_then_trans fun _ second => second
  | .group _ children, .group _ children', .group _ children'' =>
      isLE_then_trans (isLE_compareAll_trans children children' children'')

theorem isLE_compareAll_trans : ∀ left middle right : List SortKey,
    (compareAll left middle).isLE → (compareAll middle right).isLE → (compareAll left right).isLE
  | [], _, [] => fun _ _ => rfl
  | [], _, _ :: _ => fun _ _ => rfl
  | _ :: _, [], _ => fun before => nomatch before
  | _ :: _, _ :: _, [] => fun _ behind => nomatch behind
  | key :: rest, key' :: rest', key'' :: rest'' => fun before behind => by
      have chain := isLE_trans key key' key''
      simp only [compareAll, Ordering.isLE_then_iff_or] at before behind ⊢
      rcases before with before | ⟨before, others⟩
      · exact .inl (lt_of_isLE_trans chain before
          (by rcases behind with behind | ⟨behind, _⟩ <;> simp [behind]))
      · obtain rfl := eq_of_compare before
        exact behind.imp_right fun behind =>
          ⟨behind.1, isLE_compareAll_trans rest rest' rest'' others behind.2⟩
end

instance : Ord SortKey := ⟨compare⟩

instance : Std.TransOrd SortKey where
  eq_swap := compare_swap _ _
  isLE_trans := isLE_trans _ _ _

instance : Std.LawfulEqOrd SortKey where
  compare_self {key} := by
    have swapped : compare key key = (compare key key).swap := compare_swap key key
    change compare key key = .eq
    revert swapped
    cases compare key key <;> simp
  eq_of_compare := eq_of_compare

end ImportBlock.SortKey
