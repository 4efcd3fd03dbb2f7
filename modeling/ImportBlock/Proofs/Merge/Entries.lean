import ImportBlock.Merge.Entry

/-! The entries of forests are their different imports. Collecting them fails exactly if one import
occurs with different metadata. -/

namespace ImportBlock

/-- What forests import: their leaves with full paths, in canonical form. -/
def Forest.imports (forests : List Forest) : List Leaf :=
  forests.flatMap fun forest => forest.leaves.map Leaf.canonical

/-- Whether two leaves are one import with different metadata. -/
def Leaf.Contradicts (left right : Leaf) : Prop :=
  left.path = right.path ∧ left.rename = right.rename ∧ left.metadata ≠ right.metadata

def Forest.Contradictory (forests : List Forest) : Prop :=
  ∃ left ∈ imports forests, ∃ right ∈ imports forests, left.Contradicts right

namespace Entry

theorem matchesImport_iff {left right : Entry} :
    left.matchesImport right = true ↔
      left.leaf.path = right.leaf.path ∧ left.leaf.rename = right.leaf.rename := by
  simp [matchesImport]

def Separate (entries : List Entry) : Prop :=
  entries.Pairwise fun left right => left.matchesImport right = false

theorem insert_cases (entries : List Entry) (entry : Entry) :
    (insert entries entry = .ok (entries ++ [entry]) ∧
        ∀ other ∈ entries, other.matchesImport entry = false) ∨
      (insert entries entry = .ok entries ∧ ∃ other ∈ entries, other.leaf = entry.leaf) ∨
      ∃ existing ∈ entries, existing.leaf.Contradicts entry.leaf ∧
        insert entries entry = .error (metadataConflict existing entry) := by
  unfold insert
  cases found : entries.find? entry.matchesImport with
  | none =>
      refine .inl ⟨rfl, ?_⟩
      intro other member
      rw [← Bool.not_eq_true, matchesImport_iff]
      intro equal
      exact List.find?_eq_none.mp found other member
        (matchesImport_iff.mpr ⟨equal.1.symm, equal.2.symm⟩)
  | some existing =>
      have member := List.mem_of_find?_eq_some found
      have equal := matchesImport_iff.mp (List.find?_some found)
      by_cases metadata : existing.leaf.metadata = entry.leaf.metadata
      · refine .inr (.inl ⟨if_pos metadata, existing, member, ?_⟩)
        exact Leaf.mk.injEq .. ▸ ⟨equal.1.symm, equal.2.symm, metadata⟩
      · exact .inr (.inr ⟨existing, member, ⟨equal.1.symm, equal.2.symm, metadata⟩,
          if_neg metadata⟩)

theorem Separate.append_singleton {entries : List Entry} {entry : Entry}
    (separate : Separate entries) (new : ∀ other ∈ entries, other.matchesImport entry = false) :
    Separate (entries ++ [entry]) := by
  rw [Separate, List.pairwise_append]
  refine ⟨separate, List.pairwise_singleton _ _, ?_⟩
  intro other member last inLast
  rw [List.mem_singleton.mp inLast]
  exact new other member

/-- Entries that are added to separate ones, one after the other, either become separate entries
with all the leaves, or two of them contradict each other. -/
theorem foldlM_insert_cases (items start : List Entry) (separate : Separate start) :
    (∃ entries, items.foldlM insert start = .ok entries ∧ Separate entries ∧
        ∀ leaf, leaf ∈ entries.map (·.leaf) ↔ leaf ∈ (start ++ items).map (·.leaf)) ∨
      ∃ first ∈ start ++ items, ∃ second ∈ start ++ items,
        first.leaf.Contradicts second.leaf ∧
          items.foldlM insert start = .error (metadataConflict first second) := by
  induction items generalizing start with
  | nil => exact .inl ⟨start, rfl, separate, by simp⟩
  | cons entry rest induction =>
      rcases insert_cases start entry with ⟨added, new⟩ | ⟨added, other, member, equal⟩ |
          ⟨existing, member, contradicts, failed⟩
      · have step : (entry :: rest).foldlM insert start =
            rest.foldlM insert (start ++ [entry]) := by rw [List.foldlM_cons, added]; rfl
        have later := induction (start ++ [entry]) (separate.append_singleton new)
        rw [step]
        simpa only [List.append_assoc, List.singleton_append] using later
      · have step : (entry :: rest).foldlM insert start = rest.foldlM insert start := by
          rw [List.foldlM_cons, added]; rfl
        rw [step]
        rcases induction start separate with ⟨entries, success, separated, leaves⟩ |
            ⟨first, inFirst, second, inSecond, contradicts, failed⟩
        · refine .inl ⟨entries, success, separated, ?_⟩
          intro leaf
          have present : entry.leaf ∈ start.map (·.leaf) := List.mem_map.mpr ⟨other, member, equal⟩
          rw [leaves leaf]
          simp only [List.map_append, List.map_cons, List.mem_append, List.mem_cons]
          constructor
          · intro inside
            rcases inside with inStart | inRest
            · exact .inl inStart
            · exact .inr (.inr inRest)
          · intro inside
            rcases inside with inStart | rfl | inRest
            · exact .inl inStart
            · exact .inl present
            · exact .inr inRest
        · have grow : ∀ item ∈ start ++ rest, item ∈ start ++ entry :: rest := by
            intro item inside
            simp only [List.mem_append, List.mem_cons] at inside ⊢
            exact inside.imp_right .inr
          exact .inr ⟨first, grow first inFirst, second, grow second inSecond, contradicts, failed⟩
      · rw [List.foldlM_cons, failed]
        exact .inr ⟨existing, List.mem_append_left _ member, entry,
          List.mem_append_right _ List.mem_cons_self, contradicts, rfl⟩

theorem map_leaf_flatMap_ofForest (forests : List Forest) :
    (forests.flatMap ofForest).map (·.leaf) = Forest.imports forests := by
  simp only [List.map_flatMap, Forest.imports, ofForest, List.map_map]
  rfl

/-- Entries hold exactly what forests import, each import once. -/
structure Collects (entries : List Entry) (forests : List Forest) : Prop where
  separate : Separate entries
  leaves : ∀ leaf, leaf ∈ entries.map (·.leaf) ↔ leaf ∈ Forest.imports forests

theorem ofForests_cases (forests : List Forest) :
    (∃ entries, ofForests forests = .ok entries ∧ Collects entries forests) ∨
      ∃ first second, first.leaf ∈ Forest.imports forests ∧
        second.leaf ∈ Forest.imports forests ∧ first.leaf.Contradicts second.leaf ∧
          ofForests forests = .error (metadataConflict first second) := by
  rcases foldlM_insert_cases (forests.flatMap ofForest) [] List.Pairwise.nil with
    ⟨entries, success, separate, leaves⟩ |
      ⟨first, inFirst, second, inSecond, contradicts, failed⟩
  · refine .inl ⟨entries, success, separate, ?_⟩
    intro leaf
    rw [leaves, List.nil_append, map_leaf_flatMap_ofForest]
  · rw [List.nil_append] at inFirst inSecond
    rw [← map_leaf_flatMap_ofForest]
    exact .inr ⟨first, second, List.mem_map_of_mem inFirst, List.mem_map_of_mem inSecond,
      contradicts, failed⟩

namespace Separate

variable {entries : List Entry}

theorem map_leaf (separate : Separate entries) :
    (entries.map (·.leaf)).Pairwise fun left right =>
      ¬(left.path = right.path ∧ left.rename = right.rename) := by
  rw [List.pairwise_map]
  refine List.Pairwise.imp ?_ separate
  intro left right different equal
  rw [← Bool.not_eq_true] at different
  exact different (matchesImport_iff.mpr equal)

theorem nodup_map_leaf (separate : Separate entries) : (entries.map (·.leaf)).Nodup := by
  refine List.Pairwise.imp ?_ separate.map_leaf
  intro left right different equal
  exact different ⟨congrArg _ equal, congrArg _ equal⟩

theorem not_contradicts (separate : Separate entries) {left right : Leaf}
    (inLeft : left ∈ entries.map (·.leaf)) (inRight : right ∈ entries.map (·.leaf)) :
    ¬left.Contradicts right := by
  intro contradicts
  have apart : (entries.map (·.leaf)).Pairwise fun left right => ¬left.Contradicts right :=
    separate.map_leaf.imp fun different contradicts => different ⟨contradicts.1, contradicts.2.1⟩
  have apart' : (entries.map (·.leaf)).Pairwise fun left right => ¬right.Contradicts left :=
    separate.map_leaf.imp fun different contradicts =>
      different ⟨contradicts.1.symm, contradicts.2.1.symm⟩
  exact List.Pairwise.forall_of_forall_of_flip (fun _ _ itself => itself.2.2 rfl) apart apart'
    inLeft inRight contradicts

theorem eq_of_import (separate : Separate entries) {left right : Leaf}
    (inLeft : left ∈ entries.map (·.leaf)) (inRight : right ∈ entries.map (·.leaf))
    (path : left.path = right.path) (rename : left.rename = right.rename) : left = right := by
  have metadata : left.metadata = right.metadata := by
    apply Decidable.byContradiction
    intro different
    exact separate.not_contradicts inLeft inRight ⟨path, rename, different⟩
  rcases left with ⟨_, _, _⟩
  rcases right with ⟨_, _, _⟩
  exact Leaf.mk.injEq .. ▸ ⟨path, rename, metadata⟩

end Separate

theorem Collects.not_contradictory {entries : List Entry} {forests : List Forest}
    (collects : Collects entries forests) : ¬Forest.Contradictory forests := by
  intro contradictory
  rcases contradictory with ⟨left, inLeft, right, inRight, contradicts⟩
  exact collects.separate.not_contradicts ((collects.leaves left).mpr inLeft)
    ((collects.leaves right).mpr inRight) contradicts

end Entry

end ImportBlock
