import ImportBlock.Tree.Basic

namespace ImportBlock

/-! ## Gathering

Gathering the items of a list by a key: the keys in the order of their first items, and under
each key its items in the order of the list. -/

def gather {α κ : Type} [BEq κ] (key : α → κ) (items : List α) : List (κ × List α) :=
  (items.map key).eraseDups.map fun k => (k, items.filter fun item => key item == k)

theorem mem_gather {α κ : Type} [BEq κ] [LawfulBEq κ] {key : α → κ} {items members : List α}
    {k : κ} :
    (k, members) ∈ gather key items ↔
      (∃ item ∈ items, key item = k) ∧ members = items.filter fun item => key item == k := by
  simp only [gather, List.mem_map, List.mem_eraseDups, Prod.mk.injEq]
  constructor
  · rintro ⟨found, present, rfl, rfl⟩
    exact ⟨present, rfl⟩
  · rintro ⟨present, rfl⟩
    exact ⟨k, present, rfl, rfl⟩

example : gather (· % 3) [4, 2, 1, 3, 5] = [(1, [4, 1]), (2, [2, 5]), (0, [3])] := by decide

namespace Tree

/-! ## Factoring

Factoring leaves into trees whose stems are as long as possible. A leaf that ends where the
path of another goes on stays a sibling of the tree of the longer paths: `a::{b, b::c}`. -/

/-- The tree of a stem and of what follows it. An only child takes the stem into its own path. -/
def underStem (stem : Path) : List Tree → Tree
  | [.leaf only] => .leaf (only.under stem)
  | [.group inner children] => .group (stem ++ inner) children
  | children => .group stem children

def tails (leaves : List Leaf) : List Leaf :=
  leaves.map fun leaf => { leaf with path := leaf.path.tail }

def factorTo : (depth : Nat) → List Leaf → List Tree
  | 0, leaves => leaves.map .leaf
  | depth + 1, leaves =>
      let short := leaves.filter fun leaf => leaf.path.length ≤ 1
      let long := leaves.filter fun leaf => 1 < leaf.path.length
      let buckets := gather (fun (leaf : Leaf) => leaf.path.take 1) long
      short.map .leaf ++ buckets.map fun (head, members) =>
        match members with
        | [only] => .leaf only
        | _ => underStem head (factorTo depth (tails members))

def depth (leaves : List Leaf) : Nat :=
  leaves.foldr (fun leaf deepest => max leaf.path.length deepest) 0

def factor (leaves : List Leaf) : List Tree :=
  let distinct := leaves.eraseDups
  factorTo (depth distinct) distinct

end Tree

end ImportBlock
