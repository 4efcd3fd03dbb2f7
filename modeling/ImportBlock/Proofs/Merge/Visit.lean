import ImportBlock.Proofs.Gather
import ImportBlock.Proofs.Merge.Entries
import ImportBlock.Proofs.Tree.Factor
import ImportBlock.Proofs.Tree.Order

/-! The order in which entries are visited. Every entry is visited once. Where all segments are
valid, the order is that of the imports: it does not depend on where the entries come from. -/

namespace ImportBlock

namespace Path

def visitOrder : Path → Path → Ordering
  | first :: next :: inner, first' :: next' :: inner' =>
      (compare first.rank first'.rank).then (visitOrder (next :: inner) (next' :: inner'))
  | _ :: _ :: _, _ => .gt
  | _, _ :: _ :: _ => .lt
  | path, path' => compare path.ranks path'.ranks

theorem visitOrder_swap (left right : Path) :
    visitOrder left right = (visitOrder right left).swap := by
  fun_induction visitOrder left right with
  | case1 first next inner first' next' inner' induction =>
      rw [visitOrder, Ordering.swap_then, ← induction, ← Std.OrientedOrd.eq_swap]
  | case2 first next inner right short =>
      unfold visitOrder
      split <;> simp_all
  | case3 left first next inner short =>
      unfold visitOrder
      split <;> simp_all
  | case4 left right shortLeft shortRight =>
      unfold visitOrder
      split <;> simp_all
      exact Std.OrientedOrd.eq_swap

theorem ranks_eq_of_visitOrder {left right : Path} (equal : visitOrder left right = .eq) :
    left.ranks = right.ranks := by
  fun_induction visitOrder left right with
  | case1 first next inner first' next' inner' induction =>
      rw [Ordering.then_eq_eq] at equal
      have first := Std.LawfulEqOrd.eq_of_compare equal.1
      have others := induction equal.2
      simp only [ranks, List.map_cons] at others ⊢
      rw [first, others]
  | case2 => cases equal
  | case3 => cases equal
  | case4 => exact Std.LawfulEqOrd.eq_of_compare equal

theorem visitOrder_of_short {left right : Path} (leftShort : left.length ≤ 1)
    (rightShort : right.length ≤ 1) : visitOrder left right = compare left.ranks right.ranks := by
  unfold visitOrder
  split <;> simp_all

theorem visitOrder_of_short_of_long {left right : Path} (leftShort : left.length ≤ 1)
    (rightLong : 1 < right.length) : visitOrder left right = .lt := by
  match left, right with
  | [], _ :: _ :: _ => rfl
  | [_], _ :: _ :: _ => rfl
  | _ :: _ :: _, _ => simp at leftShort
  | _, [_] => simp at rightLong
  | _, [] => simp at rightLong

theorem visitOrder_of_long {left right : Path} (leftLong : 1 < left.length)
    (rightLong : 1 < right.length)
    (before : compare (ranks (left.take 1)) (ranks (right.take 1)) = .lt) :
    visitOrder left right = .lt := by
  match left, right with
  | first :: _ :: _, first' :: _ :: _ =>
      simp only [ranks, List.take_succ_cons, List.take_zero, List.map_cons, List.map_nil,
        List.compare_eq_compareLex, List.compareLex_cons_cons, List.compareLex_nil_nil,
        Ordering.then_eq] at before
      rw [visitOrder, before]
      rfl
  | [], _ => simp at leftLong
  | [_], _ => simp at leftLong
  | _, [_] => simp at rightLong
  | _, [] => simp at rightLong

theorem visitOrder_append (stem : Path) {left right : Path} (leftNonempty : left ≠ [])
    (rightNonempty : right ≠ []) :
    visitOrder (stem ++ left) (stem ++ right) = visitOrder left right := by
  induction stem with
  | nil => rfl
  | cons first stem induction =>
      rcases List.exists_cons_of_ne_nil (List.append_ne_nil_of_right_ne_nil stem leftNonempty) with
        ⟨next, inner, leftEqual⟩
      rcases List.exists_cons_of_ne_nil (List.append_ne_nil_of_right_ne_nil stem rightNonempty) with
        ⟨next', inner', rightEqual⟩
      rw [List.cons_append, List.cons_append, leftEqual, rightEqual, visitOrder, ← leftEqual,
        ← rightEqual, induction]
      simp

end Path

namespace Leaf

def visitOrder (left right : Leaf) : Ordering :=
  (Path.visitOrder left.path right.path).then (compare left.rename right.rename)

theorem eq_of_visitOrder {left right : Leaf} (leftValid : left.path.IsValid)
    (rightValid : right.path.IsValid) (before : (left.visitOrder right).isLE)
    (behind : (right.visitOrder left).isLE) :
    left.path = right.path ∧ left.rename = right.rename := by
  have equal : left.visitOrder right = .eq := by
    have swapped : left.visitOrder right = (right.visitOrder left).swap := by
      rw [visitOrder, visitOrder, Ordering.swap_then, ← Path.visitOrder_swap,
        ← Std.OrientedOrd.eq_swap]
    revert before behind
    rw [swapped]
    cases right.visitOrder left <;> simp
  rw [visitOrder, Ordering.then_eq_eq] at equal
  exact ⟨Path.eq_of_ranks leftValid rightValid (Path.ranks_eq_of_visitOrder equal.1),
    Std.LawfulEqOrd.eq_of_compare equal.2⟩

end Leaf

namespace Entry

theorem visitTo_perm (depth : Nat) (placed : List Placed) :
    (visitTo depth placed).Perm (placed.map (·.entry)) := by
  induction depth generalizing placed with
  | zero => exact List.Perm.refl _
  | succ depth induction =>
      simp only [visitTo]
      refine List.Perm.trans ?_ ((filter_le_append_filter_lt_perm
        (fun placed : Placed => placed.inner.length) 1 placed).map _)
      rw [List.map_append]
      apply List.Perm.append ((List.mergeSort_perm _ _).map _)
      apply List.Perm.trans ((List.mergeSort_perm _ _).flatMap_right _)
      apply List.Perm.trans (List.Perm.flatMap_left _ fun group _ => induction _)
      have gathered := (flatMap_gather_perm (fun placed : Placed => placed.inner.take 1)
        (placed.filter fun placed => 1 < placed.inner.length)).map (·.entry)
      rw [List.map_flatMap] at gathered
      simp only [List.map_map]
      exact gathered

theorem mem_visitTo_tails {depth : Nat} {members : List Placed} {entry : Entry} :
    entry ∈ visitTo depth (members.map fun placed => { placed with inner := placed.inner.tail }) ↔
      ∃ one ∈ members, one.entry = entry := by
  rw [(visitTo_perm _ _).mem_iff, List.map_map, List.mem_map]
  rfl

theorem visit_perm (entries : List Entry) : (visit entries).Perm entries := by
  have whole := visitTo_perm (Tree.depth (entries.map (·.leaf)))
    (entries.map fun entry => ⟨entry.leaf.path, entry⟩)
  rwa [List.map_map, List.map_id''] at whole
  exact fun _ => rfl

/-- Whether an entry lies below a module: `inner` is what is left of its path, and not all of it is
the module. -/
structure Placed.Below (stem : Path) (depth : Nat) (placed : Placed) : Prop where
  path : placed.entry.leaf.path = stem ++ placed.inner
  nonempty : placed.inner ≠ []
  bounded : placed.inner.length ≤ depth
  valid : placed.entry.leaf.path.IsValid

def Precedes (left right : Entry) : Prop := (left.leaf.visitOrder right.leaf).isLE

theorem Placed.Below.precedes {stem : Path} {depth depth' : Nat} {left right : Placed}
    (leftBelow : left.Below stem depth) (rightBelow : right.Below stem depth')
    (before : ((Path.visitOrder left.inner right.inner).then
      (compare left.entry.leaf.rename right.entry.leaf.rename)).isLE) :
    left.entry.Precedes right.entry := by
  rw [Precedes, Leaf.visitOrder, leftBelow.path, rightBelow.path,
    Path.visitOrder_append stem leftBelow.nonempty rightBelow.nonempty]
  exact before

theorem Placed.Below.precedes_of_short_of_long {stem : Path} {depth depth' : Nat}
    {left right : Placed} (leftBelow : left.Below stem depth) (rightBelow : right.Below stem depth')
    (leftShort : left.inner.length ≤ 1) (rightLong : 1 < right.inner.length) :
    left.entry.Precedes right.entry := by
  apply leftBelow.precedes rightBelow
  rw [Path.visitOrder_of_short_of_long leftShort rightLong]
  rfl

theorem Placed.Below.precedes_of_long {stem : Path} {depth depth' : Nat} {left right : Placed}
    (leftBelow : left.Below stem depth) (rightBelow : right.Below stem depth')
    (leftLong : 1 < left.inner.length) (rightLong : 1 < right.inner.length)
    (before : compare (Path.ranks (left.inner.take 1)) (Path.ranks (right.inner.take 1)) = .lt) :
    left.entry.Precedes right.entry := by
  apply leftBelow.precedes rightBelow
  rw [Path.visitOrder_of_long leftLong rightLong before]
  rfl

instance : Std.TransCmp Placed.order := inferInstanceAs (Std.TransCmp (compareLex _ _))

theorem pairwise_here {stem : Path} {depth : Nat} {here : List Placed}
    (below : ∀ one ∈ here, one.Below stem depth ∧ one.inner.length ≤ 1) :
    ((here.mergeSort fun left right => (left.order right).isLE).map (·.entry)).Pairwise
      Precedes := by
  rw [List.pairwise_map]
  apply (pairwise_mergeSort_isLE Placed.order _).imp_of_mem
  intro left right inLeft inRight before
  rw [List.mem_mergeSort] at inLeft inRight
  rcases below left inLeft with ⟨leftBelow, leftShort⟩
  rcases below right inRight with ⟨rightBelow, rightShort⟩
  apply leftBelow.precedes rightBelow
  rw [Path.visitOrder_of_short leftShort rightShort]
  exact before

theorem Placed.Below.tail {stem key : Path} {depth : Nat} {placed : Placed}
    (below : placed.Below stem (depth + 1)) (long : 1 < placed.inner.length)
    (first : placed.inner.take 1 = key) :
    Below (stem ++ key) depth { placed with inner := placed.inner.tail } where
  path := by
    rw [below.path, ← first, List.append_assoc, ← List.drop_one, List.take_append_drop]
  nonempty := by
    rw [Ne, ← List.length_eq_zero_iff, List.length_tail]
    omega
  bounded := by
    rw [List.length_tail]
    exact Nat.sub_le_of_le_add below.bounded
  valid := below.valid

/-- The modules that are entered come in the order of their ranks, each once. -/
theorem pairwise_modules {stem : Path} {depth : Nat} {deeper : List Placed}
    (below : ∀ one ∈ deeper, one.Below stem depth) :
    ((gather (fun placed : Placed => placed.inner.take 1) deeper).mergeSort fun left right =>
      (compare (Path.ranks left.1) (Path.ranks right.1)).isLE).Pairwise fun left right =>
        compare (Path.ranks left.1) (Path.ranks right.1) = .lt := by
  have valid : ∀ group ∈ gather (fun placed : Placed => placed.inner.take 1) deeper,
      Path.IsValid group.1 := by
    intro group gathered
    rcases group with ⟨key, members⟩
    rcases of_mem_gather gathered with ⟨nonempty, within⟩
    rcases List.exists_mem_of_ne_nil members nonempty with ⟨one, member⟩
    rcases within one member with ⟨inside, first⟩
    intro segment inKey
    apply (below one inside).valid
    rw [(below one inside).path]
    apply List.mem_append_right
    exact List.mem_of_mem_take (first ▸ inKey)
  have sorted := pairwise_mergeSort_isLE
    (compareOn fun group : Path × List Placed => Path.ranks group.1)
    (gather (fun placed : Placed => placed.inner.take 1) deeper)
  have different : ((gather (fun placed : Placed => placed.inner.take 1) deeper).mergeSort
      fun left right => (compare (Path.ranks left.1) (Path.ranks right.1)).isLE).Pairwise
        fun left right => left.1 ≠ right.1 := by
    rw [← List.pairwise_map]
    exact ((List.mergeSort_perm _ _).map _).symm.nodup (nodup_map_fst_gather _ _)
  refine (List.pairwise_and_iff.mpr ⟨sorted, different⟩).imp_of_mem ?_
  intro left right inLeft inRight both
  rw [List.mem_mergeSort] at inLeft inRight
  cases order : compare (Path.ranks left.1) (Path.ranks right.1) with
  | lt => rfl
  | eq =>
      have equal := Std.LawfulEqOrd.eq_of_compare order
      exact absurd (Path.eq_of_ranks (valid left inLeft) (valid right inRight) equal) both.2
  | gt => simp [compareOn, order] at both

/-- Entries are visited in the order of their imports, wherever these are valid. The induction runs
along the modules that have been entered; what is left of the paths shows where they part. -/
theorem pairwise_visitTo {stem : Path} {depth : Nat} {placed : List Placed}
    (below : ∀ one ∈ placed, one.Below stem depth) : (visitTo depth placed).Pairwise Precedes := by
  induction depth generalizing stem placed with
  | zero =>
      cases placed with
      | nil => exact List.Pairwise.nil
      | cons one rest =>
          have impossible := below one List.mem_cons_self
          exact absurd (List.eq_nil_of_length_eq_zero (Nat.le_zero.mp impossible.bounded))
            impossible.nonempty
  | succ depth induction =>
      have hereBelow : ∀ one ∈ placed.filter (fun placed => placed.inner.length ≤ 1),
          one.Below stem (depth + 1) ∧ one.inner.length ≤ 1 := by
        intro one member
        rw [List.mem_filter, decide_eq_true_eq] at member
        exact ⟨below one member.1, member.2⟩
      have deeperBelow : ∀ one ∈ placed.filter (fun placed => 1 < placed.inner.length),
          one.Below stem (depth + 1) ∧ 1 < one.inner.length := by
        intro one member
        rw [List.mem_filter, decide_eq_true_eq] at member
        exact ⟨below one member.1, member.2⟩
      simp only [visitTo]
      rw [List.pairwise_append]
      refine ⟨pairwise_here hereBelow, ?modules, ?across⟩
      case modules =>
        rw [List.pairwise_flatMap]
        constructor
        · intro group gathered
          rcases group with ⟨key, members⟩
          rw [List.mem_mergeSort] at gathered
          apply @induction (stem ++ key)
          intro one member
          rcases List.mem_map.mp member with ⟨whole, inside, rfl⟩
          rcases (of_mem_gather gathered).2 whole inside with ⟨inDeeper, first⟩
          exact (deeperBelow whole inDeeper).1.tail (deeperBelow whole inDeeper).2 first
        · apply (pairwise_modules fun one member => (deeperBelow one member).1).imp_of_mem
          intro group group' gathered gathered' before left inLeft right inRight
          rcases group with ⟨key, members⟩
          rcases group' with ⟨key', members'⟩
          rw [List.mem_mergeSort] at gathered gathered'
          rcases mem_visitTo_tails.mp inLeft with ⟨one, member, rfl⟩
          rcases mem_visitTo_tails.mp inRight with ⟨other, member', rfl⟩
          rcases (of_mem_gather gathered).2 one member with ⟨inDeeper, first⟩
          rcases (of_mem_gather gathered').2 other member' with ⟨inDeeper', first'⟩
          rcases deeperBelow one inDeeper with ⟨oneBelow, oneLong⟩
          rcases deeperBelow other inDeeper' with ⟨otherBelow, otherLong⟩
          apply oneBelow.precedes_of_long otherBelow oneLong otherLong
          rw [first, first']
          exact before
      case across =>
        intro left inLeft right inRight
        rw [((List.mergeSort_perm _ _).map _).mem_iff, List.mem_map] at inLeft
        rcases inLeft with ⟨one, member, rfl⟩
        rcases List.mem_flatMap.mp inRight with ⟨⟨key, members⟩, gathered, inRight⟩
        rw [List.mem_mergeSort] at gathered
        rcases mem_visitTo_tails.mp inRight with ⟨other, member', rfl⟩
        rcases (of_mem_gather gathered).2 other member' with ⟨inDeeper, _⟩
        rcases hereBelow one member with ⟨oneBelow, oneShort⟩
        rcases deeperBelow other inDeeper with ⟨otherBelow, otherLong⟩
        exact oneBelow.precedes_of_short_of_long otherBelow oneShort otherLong

theorem pairwise_visit {entries : List Entry}
    (valid : ∀ entry ∈ entries, entry.leaf.path ≠ [] ∧ entry.leaf.path.IsValid) :
    (visit entries).Pairwise Precedes := by
  apply @pairwise_visitTo []
  intro one member
  rcases List.mem_map.mp member with ⟨entry, inside, rfl⟩
  exact {
    path := rfl
    nonempty := (valid entry inside).1
    bounded := Tree.length_le_depth (List.mem_map_of_mem inside)
    valid := (valid entry inside).2 }

theorem map_leaf_visit_eq {left right : List Entry} (leftSeparate : Separate left)
    (rightSeparate : Separate right)
    (equal : ∀ leaf, leaf ∈ left.map (·.leaf) ↔ leaf ∈ right.map (·.leaf))
    (valid : ∀ entry ∈ left, entry.leaf.path ≠ [] ∧ entry.leaf.path.IsValid) :
    (visit left).map (·.leaf) = (visit right).map (·.leaf) := by
  have rightValid : ∀ entry ∈ right, entry.leaf.path ≠ [] ∧ entry.leaf.path.IsValid := by
    intro entry member
    rcases List.mem_map.mp ((equal entry.leaf).mpr (List.mem_map_of_mem member)) with
      ⟨other, inside, same⟩
    exact same ▸ valid other inside
  have leftPerm := (visit_perm left).map (·.leaf)
  have rightPerm := (visit_perm right).map (·.leaf)
  have perm : ((visit left).map (·.leaf)).Perm ((visit right).map (·.leaf)) := by
    refine leftPerm.trans (List.Perm.trans ?_ rightPerm.symm)
    exact (List.perm_ext_iff_of_nodup leftSeparate.nodup_map_leaf
      rightSeparate.nodup_map_leaf).mpr equal
  refine @List.Perm.eq_of_pairwise _ (fun left right => (left.visitOrder right).isLE) _ _ ?_
    (List.pairwise_map.mpr (pairwise_visit valid))
    (List.pairwise_map.mpr (pairwise_visit rightValid)) perm
  intro leaf other inLeft inRight before behind
  rw [leftPerm.mem_iff] at inLeft
  rw [rightPerm.mem_iff] at inRight
  rcases List.mem_map.mp inLeft with ⟨entry, member, rfl⟩
  rcases List.mem_map.mp inRight with ⟨entry', member', rfl⟩
  rcases Leaf.eq_of_visitOrder (valid entry member).2 (rightValid entry' member').2 before behind
    with ⟨path, rename⟩
  exact leftSeparate.eq_of_import inLeft ((equal _).mpr inRight) path rename

end Entry

end ImportBlock
