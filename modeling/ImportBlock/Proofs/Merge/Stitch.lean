import ImportBlock.Proofs.Merge.Stages
import ImportBlock.Proofs.Statement.Stitch

/-! Fragments put together into one text. It makes no difference to a merge whether texts are given as
one fragment, with a line feed between them, or as a fragment each. -/

namespace ImportBlock

namespace Statement

theorem exists_parse_again {text : String} {fragment : Option Int} {statements : List Statement}
    (accepted : parse text fragment = .ok statements) (fragment' : Option Int) :
    ∃ others, parse text fragment' = .ok others ∧ others.map content = statements.map content := by
  rcases exists_derives_of_parse accepted with ⟨items, derives, contents⟩
  rcases exists_parse_of_derives derives fragment' with ⟨others, accepted', contents'⟩
  exact ⟨others, accepted', contents'.trans contents.symm⟩

theorem map_content_map_shift (count : Nat) (statements : List Statement) :
    (statements.map (shift count)).map content = statements.map content := by
  rw [List.map_map]
  rfl

end Statement

namespace Forest

theorem exists_ofText_stitch {left right : String} {number number' : Option Int}
    {forest forest' : Forest} (formed : ofText left number = .ok forest)
    (formed' : ofText right number' = .ok forest') (fragment : Option Int) :
    ∃ whole, ofText (left ++ "\n" ++ right) fragment = .ok whole ∧
      ∀ leaf, leaf ∈ whole.leaves ↔ leaf ∈ forest.leaves ∨ leaf ∈ forest'.leaves := by
  rcases exists_of_bind_eq_ok formed with ⟨first, accepted, formed⟩
  rcases exists_of_bind_eq_ok formed' with ⟨second, accepted', formed'⟩
  rcases Statement.exists_parse_again accepted fragment with ⟨front, read, contents⟩
  rcases Statement.exists_parse_again accepted' fragment with ⟨back, read', contents'⟩
  have stitched := Statement.parse_stitch read read'
  have same : (front ++ back.map (Statement.shift (left.length + 1))).map Statement.content =
      (first ++ second).map Statement.content := by
    rw [List.map_append, Statement.map_content_map_shift, contents, contents', List.map_append]
  rcases of_ofStatements formed with ⟨expands, leaves⟩
  rcases of_ofStatements formed' with ⟨expands', leaves'⟩
  rcases exists_ofStatements same (List.forall_mem_append.mpr ⟨expands, expands'⟩) fragment with
    ⟨whole, success, given⟩
  refine ⟨whole, ?_, ?_⟩
  · rw [ofText, stitched]
    exact success
  · intro leaf
    rw [given, leaves, leaves']
    simp only [List.mem_append, or_and_right, exists_or]
    rfl

theorem mem_imports_iff_of_leaves {whole forest forest' : Forest}
    (leaves : ∀ leaf, leaf ∈ whole.leaves ↔ leaf ∈ forest.leaves ∨ leaf ∈ forest'.leaves)
    (leaf : Leaf) : leaf ∈ imports [whole] ↔ leaf ∈ imports [forest, forest'] := by
  simp only [imports, List.flatMap_cons, List.flatMap_nil, List.append_nil, List.mem_append,
    List.mem_map, leaves, or_and_right, exists_or]

end Forest

namespace MergedSet

/-- Forests that import the same are both in conflict, or they are merged into the same set. -/
theorem merge_agree {left right : List Forest} (absorbByRename : Bool)
    (equal : ∀ leaf, leaf ∈ Forest.imports left ↔ leaf ∈ Forest.imports right) :
    (∃ conflict conflict', merge left absorbByRename = .error conflict ∧
      merge right absorbByRename = .error conflict') ∨
    ∃ merged merged', merge left absorbByRename = .ok merged ∧
      merge right absorbByRename = .ok merged' ∧ merged.same merged' = true := by
  cases merging : merge right absorbByRename with
  | ok merged' =>
      right
      rcases exists_merge_of_between merging (fun leaf => (equal leaf).mp)
        (fun leaf member => (equal leaf).mpr (mem_imports_of_mem_leaves merging member)) with
          ⟨merged, success, same⟩
      exact ⟨merged, merged', success, rfl, same⟩
  | error conflict' =>
      left
      cases merging' : merge left absorbByRename with
      | error conflict => exact ⟨conflict, conflict', rfl, rfl⟩
      | ok merged =>
          rcases exists_merge_of_between merging' (fun leaf => (equal leaf).mpr)
            (fun leaf member => (equal leaf).mp (mem_imports_of_mem_leaves merging' member)) with
              ⟨_, success, _⟩
          rw [merging] at success
          cases success

end MergedSet

/-- Two accepted texts with a line feed between them are read as the statements of the first and then
those of the second, which stand as far behind as the second text does. If both texts are forests, so is
this text, and merging it ends as merging the two does. -/
theorem parse_and_merge_stitch {left right : String} {fragment : Option Int}
    {first second : List Statement} (accepted : Statement.parse left fragment = .ok first)
    (accepted' : Statement.parse right fragment = .ok second) :
    Statement.parse (left ++ "\n" ++ right) fragment =
      .ok (first ++ second.map (Statement.shift (left.length + 1))) ∧
    ∀ (number number' : Option Int) (forest forest' : Forest),
      Forest.ofText left number = .ok forest → Forest.ofText right number' = .ok forest' →
        ∃ whole, Forest.ofText (left ++ "\n" ++ right) fragment = .ok whole ∧
          ∀ absorbByRename,
            (∃ conflict conflict', MergedSet.merge [whole] absorbByRename = .error conflict ∧
              MergedSet.merge [forest, forest'] absorbByRename = .error conflict') ∨
            ∃ merged merged', MergedSet.merge [whole] absorbByRename = .ok merged ∧
              MergedSet.merge [forest, forest'] absorbByRename = .ok merged' ∧
                merged.same merged' = true := by
  refine ⟨Statement.parse_stitch accepted accepted', ?_⟩
  intro number number' forest forest' formed formed'
  rcases Forest.exists_ofText_stitch formed formed' fragment with ⟨whole, success, leaves⟩
  exact ⟨whole, success, fun absorbByRename =>
    MergedSet.merge_agree absorbByRename (Forest.mem_imports_iff_of_leaves leaves)⟩

theorem parse_and_merge_stitch_open_comment :
    Statement.parse "use a::b; // b\nuse a::c;" (some 0) =
      .ok [⟨.path "a" (.name "b"), {}, some 0, some ⟨0, 9⟩⟩,
        ⟨.path "a" (.name "c"), {}, some 0, some ⟨15, 24⟩⟩] ∧
    ∃ whole, Forest.ofText "use a::b; // b\nuse a::c;" (some 0) = .ok whole ∧
      ∃ merged, MergedSet.merge [whole] true = .ok merged ∧
        merged.same ⟨[.group [.name "a"]
          [.leaf ⟨[.name "b"], none, {}⟩, .leaf ⟨[.name "c"], none, {}⟩]]⟩ = true := by
  have accepted : Statement.parse "use a::b; // b" (some 0) =
      .ok [⟨.path "a" (.name "b"), {}, some 0, some ⟨0, 9⟩⟩] := by cbv
  have accepted' : Statement.parse "use a::c;" (some 0) =
      .ok [⟨.path "a" (.name "c"), {}, some 0, some ⟨0, 9⟩⟩] := by cbv
  have formed : Forest.ofText "use a::b; // b" (some 0) =
      .ok ⟨0, [.leaf ⟨[.name "a", .name "b"], none, {}⟩]⟩ := by cbv
  have formed' : Forest.ofText "use a::c;" (some 1) =
      .ok ⟨1, [.leaf ⟨[.name "a", .name "c"], none, {}⟩]⟩ := by cbv
  have merging : MergedSet.merge [⟨0, [.leaf ⟨[.name "a", .name "b"], none, {}⟩]⟩,
      ⟨1, [.leaf ⟨[.name "a", .name "c"], none, {}⟩]⟩] true = .ok ⟨[.group [.name "a"]
        [.leaf ⟨[.name "b"], none, {}⟩, .leaf ⟨[.name "c"], none, {}⟩]]⟩ := by cbv
  rcases parse_and_merge_stitch accepted accepted' with ⟨stitched, separate⟩
  refine ⟨stitched, ?_⟩
  rcases separate _ _ _ _ formed formed' with ⟨whole, success, ends⟩
  refine ⟨whole, success, ?_⟩
  rcases ends true with ⟨_, conflict, _, failed⟩ | ⟨merged, merged', succeeded, succeeded', same⟩
  · rw [merging] at failed
    cases failed
  · rw [merging] at succeeded'
    cases succeeded'
    exact ⟨merged, succeeded, same⟩

end ImportBlock
