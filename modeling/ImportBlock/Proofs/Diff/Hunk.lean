import ImportBlock.Diff.Unified
import Mathlib

/-! Hunks as changes of a text. Cutting unchanged lines off pieces and collecting the pieces into hunks
leaves what they make of the old lines as it is. -/

namespace ImportBlock.Diff

/-! ## Pieces -/

theorem flatMap_joinPieces {side : Piece → List Line} (nothing : side (.changed [] []) = [])
    (kept : ∀ lines, side (.kept lines) = lines) (pieces : List Piece) :
    (joinPieces pieces).flatMap side = pieces.flatMap side := by
  fun_induction joinPieces pieces with
  | case1 => rfl
  | case2 rest induction => rw [induction, List.flatMap_cons, nothing, List.nil_append]
  | case3 rest lines others rest' equal induction =>
      rw [equal, List.flatMap_cons, kept] at induction
      rw [List.flatMap_cons, List.flatMap_cons, kept, kept, List.append_assoc, induction]
  | case4 rest lines _ induction => rw [List.flatMap_cons, List.flatMap_cons, induction]
  | case5 rest piece _ _ induction => rw [List.flatMap_cons, List.flatMap_cons, induction]

theorem flatMap_old_pieces (old new : List Line) : (pieces old new).flatMap Piece.old = old := by
  rw [pieces, flatMap_joinPieces rfl fun _ => rfl, flatMap_old_align, linesOf_seek]

theorem flatMap_new_pieces (old new : List Line) : (pieces old new).flatMap Piece.new = new := by
  rw [pieces, flatMap_joinPieces rfl fun _ => rfl, flatMap_new_align]

namespace Located

/-- Whether a piece stands directly in front of another. -/
def Precedes (left right : Located) : Prop :=
  right.oldStart = left.oldStop ∧ right.newStart = left.newStop

end Located

/-- Whether some pieces turn old lines into new ones, all lines between them staying. The lines stand
behind the given numbers of other lines. -/
inductive Turns : (oldPlace newPlace : Nat) → List Located → List Line → List Line → Prop
  | nil {oldPlace newPlace : Nat} (lines : List Line) : Turns oldPlace newPlace [] lines lines
  | cons {oldPlace newPlace : Nat} {gap old new : List Line} {located : Located}
      {rest : List Located} (oldStarts : located.oldStart = oldPlace + gap.length)
      (newStarts : located.newStart = newPlace + gap.length)
      (behind : Turns located.oldStop located.newStop rest old new) :
      Turns oldPlace newPlace (located :: rest) (gap ++ (located.piece.old ++ old))
        (gap ++ (located.piece.new ++ new))

theorem turns_locate (pieces : List Piece) (oldPlace newPlace : Nat) :
    Turns oldPlace newPlace (locate oldPlace newPlace pieces) (pieces.flatMap Piece.old)
      (pieces.flatMap Piece.new) := by
  induction pieces generalizing oldPlace newPlace with
  | nil => exact .nil []
  | cons piece rest induction =>
      exact @Turns.cons _ _ [] _ _ ⟨oldPlace, newPlace, piece⟩ _ rfl rfl (induction _ _)

theorem isChain_locate (pieces : List Piece) (oldPlace newPlace : Nat) :
    (locate oldPlace newPlace pieces).IsChain Located.Precedes := by
  induction pieces generalizing oldPlace newPlace with
  | nil => exact .nil
  | cons piece rest induction =>
      refine List.isChain_cons.mpr ⟨?_, induction _ _⟩
      intro next found
      cases rest with
      | nil => cases found
      | cons second others =>
          cases found
          exact ⟨rfl, rfl⟩

namespace Turns

variable {oldPlace newPlace : Nat} {old new : List Line} {located : Located} {rest : List Located}

theorem skip {items : List Located} (lines : List Line)
    (turns : Turns (oldPlace + lines.length) (newPlace + lines.length) items old new) :
    Turns oldPlace newPlace items (lines ++ old) (lines ++ new) := by
  cases turns with
  | nil => exact .nil _
  | cons oldStarts newStarts behind =>
      rw [← List.append_assoc, ← List.append_assoc lines]
      refine .cons ?_ ?_ behind
      · rw [oldStarts, List.length_append, Nat.add_assoc]
      · rw [newStarts, List.length_append, Nat.add_assoc]

theorem congr_tail (front : List Located) {tail tail' : List Located}
    (replaces : ∀ {oldPlace newPlace : Nat} {old new : List Line},
      Turns oldPlace newPlace tail old new → Turns oldPlace newPlace tail' old new)
    (turns : Turns oldPlace newPlace (front ++ tail) old new) :
    Turns oldPlace newPlace (front ++ tail') old new := by
  induction front generalizing oldPlace newPlace old new with
  | nil => exact replaces turns
  | cons first others induction =>
      cases turns with
      | cons oldStarts newStarts behind => exact .cons oldStarts newStarts (induction behind)

theorem of_kept (kept : located.piece.isChange = false)
    (turns : Turns oldPlace newPlace (located :: rest) old new) :
    Turns oldPlace newPlace rest old new := by
  rcases located with ⟨oldStart, newStart, lines | _⟩
  · cases turns with
    | cons oldStarts newStarts behind =>
        apply skip
        apply skip
        rw [← oldStarts, ← newStarts]
        exact behind
  · cases kept

theorem divide {oldStart newStart : Nat} {lines : List Line} (count : Nat)
    (turns : Turns oldPlace newPlace (⟨oldStart, newStart, .kept lines⟩ :: rest) old new) :
    Turns oldPlace newPlace (⟨oldStart, newStart, .kept (lines.take count)⟩ ::
      ⟨oldStart + (lines.take count).length, newStart + (lines.take count).length,
        .kept (lines.drop count)⟩ :: rest) old new := by
  cases turns with
  | @cons _ _ gap old new _ _ oldStarts newStarts behind =>
      have length : (lines.take count).length + (lines.drop count).length = lines.length := by
        rw [← List.length_append, List.take_append_drop]
      have later : Turns (oldStart + (lines.take count).length + (lines.drop count).length)
          (newStart + (lines.take count).length + (lines.drop count).length) rest old new := by
        rw [Nat.add_assoc, Nat.add_assoc, length]
        exact behind
      have second := @Turns.cons _ _ [] _ _ ⟨oldStart + (lines.take count).length,
        newStart + (lines.take count).length, .kept (lines.drop count)⟩ _ rfl rfl later
      have both := @Turns.cons _ _ gap _ _ ⟨oldStart, newStart, .kept (lines.take count)⟩ _
        oldStarts newStarts second
      simpa only [Piece.old, Piece.new, List.nil_append, ← List.append_assoc (lines.take count),
        List.take_append_drop] using both

theorem first (count : Nat) (turns : Turns oldPlace newPlace (located :: rest) old new) :
    Turns oldPlace newPlace (located.first count :: rest) old new := by
  rcases located with ⟨oldStart, newStart, lines | _⟩
  · exact congr_tail [_] (of_kept rfl) (turns.divide count)
  · exact turns

theorem last (count : Nat) (turns : Turns oldPlace newPlace (located :: rest) old new) :
    Turns oldPlace newPlace (located.last count :: rest) old new := by
  rcases located with ⟨oldStart, newStart, lines | _⟩
  · have cut := of_kept rfl (turns.divide (lines.length - count))
    rwa [List.length_take, Nat.min_eq_left (Nat.sub_le _ _)] at cut
  · exact turns

theorem first_last {count : Nat} (kept : located.piece.isChange = false)
    (long : 2 * count ≤ located.piece.old.length)
    (turns : Turns oldPlace newPlace (located :: rest) old new) :
    Turns oldPlace newPlace (located.first count :: located.last count :: rest) old new := by
  rcases located with ⟨oldStart, newStart, lines | _⟩
  · have cut := congr_tail [_] (last count) (turns.divide count)
    have long : 2 * count ≤ lines.length := long
    have length : (lines.take count).length = count := List.length_take_of_le (by omega)
    have middle : count + (lines.length - count - count) = lines.length - count := by omega
    simpa only [Located.last, Located.first, length, List.length_drop, List.drop_drop,
      Nat.add_assoc, middle, List.singleton_append] using cut
  · cases kept

end Turns

/-! ## Trimming -/

theorem trim_cons (context : Nat) (first : Located) (rest : List Located) :
    ∃ init last, first.last context :: rest = init ++ [last] ∧
      trim context (first :: rest) = init ++ [last.first context] := by
  rcases List.eq_nil_or_concat (first.last context :: rest) with none | ⟨init, last, equal⟩
  · cases none
  · rw [List.concat_eq_append] at equal
    refine ⟨init, last, equal, ?_⟩
    rw [trim, equal]
    simp

theorem turns_trim {context oldPlace newPlace : Nat} {located : List Located} {old new : List Line}
    (turns : Turns oldPlace newPlace located old new) :
    Turns oldPlace newPlace (trim context located) old new := by
  cases located with
  | nil => exact turns
  | cons first rest =>
      rcases trim_cons context first rest with ⟨init, last, ahead, equal⟩
      have turns := turns.last context
      rw [ahead] at turns
      rw [equal]
      exact Turns.congr_tail init (Turns.first context) turns

namespace Located

theorem Precedes.last {left right : Located} (count : Nat) (precedes : left.Precedes right) :
    (left.last count).Precedes right := by
  rcases left with ⟨oldStart, newStart, lines | _⟩
  · rcases precedes with ⟨old, new⟩
    have length : lines.length - count + (lines.length - (lines.length - count)) = lines.length := by
      omega
    simp only [oldStop, newStop, Piece.old, Piece.new] at old new
    simp only [Precedes, Located.last, oldStop, newStop, Piece.old, Piece.new, List.length_drop,
      Nat.add_assoc, length]
    exact ⟨old, new⟩
  · exact precedes

theorem Precedes.first {left right : Located} (count : Nat) (precedes : left.Precedes right) :
    left.Precedes (right.first count) := by
  rcases right with ⟨oldStart, newStart, lines | _⟩ <;> exact precedes

end Located

open Located (Precedes)

theorem isChain_last {located : Located} {rest : List Located} (count : Nat)
    (chain : (located :: rest).IsChain Precedes) :
    (located.last count :: rest).IsChain Precedes := by
  rw [List.isChain_cons] at chain ⊢
  exact ⟨fun next found => (chain.1 next found).last count, chain.2⟩

theorem isChain_first {located : Located} {front : List Located} (count : Nat)
    (chain : (front ++ [located]).IsChain Precedes) :
    (front ++ [located.first count]).IsChain Precedes := by
  rw [List.isChain_append] at chain ⊢
  refine ⟨chain.1, List.isChain_singleton _, ?_⟩
  intro left found right found'
  cases found'
  exact (chain.2.2 left found located rfl).first count

theorem isChain_trim {context : Nat} {located : List Located} (chain : located.IsChain Precedes) :
    (trim context located).IsChain Precedes := by
  cases located with
  | nil => exact chain
  | cons first rest =>
      rcases trim_cons context first rest with ⟨init, last, ahead, equal⟩
      have chain := isChain_last context chain
      rw [ahead] at chain
      rw [equal]
      exact isChain_first context chain

/-! ## Collecting -/

theorem turns_collect {context oldPlace newPlace : Nat} {current located : List Located}
    {old new : List Line} (turns : Turns oldPlace newPlace (current ++ located) old new) :
    Turns oldPlace newPlace (collect context current located).flatten old new := by
  fun_induction collect context current located generalizing oldPlace newPlace old new with
  | case1 current => simpa using turns
  | case2 current first rest cut induction =>
      simp only [Bool.and_eq_true, Bool.not_eq_true', decide_eq_true_eq] at cut
      have parts := Turns.congr_tail current (Turns.first_last cut.1 (Nat.le_of_lt cut.2)) turns
      rw [List.flatten_cons, List.append_assoc]
      exact Turns.congr_tail current (Turns.congr_tail [_] induction) parts
  | case3 current first rest _ induction =>
      apply induction
      rwa [List.append_assoc, List.singleton_append]

theorem isChain_collect {context : Nat} {current located : List Located}
    (chain : (current ++ located).IsChain Precedes) :
    ∀ hunk ∈ collect context current located, hunk.IsChain Precedes := by
  fun_induction collect context current located with
  | case1 current => simpa using chain
  | case2 current first rest cut induction =>
      have split : (current ++ [first]) ++ rest = current ++ first :: rest := by simp
      have ahead : (current ++ [first]).IsChain Precedes :=
        (List.isChain_append.mp (split ▸ chain)).1
      refine List.forall_mem_cons.mpr ⟨isChain_first context ahead, ?_⟩
      apply induction
      exact isChain_last context (List.isChain_append.mp chain).2.1
  | case3 current first rest _ induction =>
      apply induction
      rwa [List.append_assoc, List.singleton_append]

theorem Turns.of_unchanged {pieces rest : List Located} {oldPlace newPlace : Nat}
    {old new : List Line} (unchanged : pieces.any (·.piece.isChange) = false)
    (turns : Turns oldPlace newPlace (pieces ++ rest) old new) :
    Turns oldPlace newPlace rest old new := by
  rw [List.any_eq_false] at unchanged
  induction pieces with
  | nil => exact turns
  | cons first others induction =>
      have parts := List.forall_mem_cons.mp unchanged
      exact induction parts.2 (turns.of_kept (Bool.not_eq_true _ ▸ parts.1))

theorem turns_filter {hunks : List (List Located)} {oldPlace newPlace : Nat} {old new : List Line}
    (turns : Turns oldPlace newPlace hunks.flatten old new) :
    Turns oldPlace newPlace (hunks.filter fun hunk => hunk.any (·.piece.isChange)).flatten old new := by
  induction hunks generalizing oldPlace newPlace old new with
  | nil => exact turns
  | cons hunk rest induction =>
      rw [List.flatten_cons] at turns
      cases changes : hunk.any (·.piece.isChange) with
      | true =>
          rw [List.filter_cons, if_pos changes, List.flatten_cons]
          exact Turns.congr_tail hunk induction turns
      | false =>
          rw [List.filter_cons, changes]
          exact induction (turns.of_unchanged changes)

theorem turns_hunks (context : Nat) (pieces : List Piece) :
    Turns 0 0 (hunks context pieces).flatten (pieces.flatMap Piece.old)
      (pieces.flatMap Piece.new) := by
  apply turns_filter
  apply turns_collect
  rw [List.nil_append]
  exact turns_trim (turns_locate pieces 0 0)

theorem of_mem_hunks {context : Nat} {pieces : List Piece} {hunk : List Located}
    (member : hunk ∈ hunks context pieces) : hunk ≠ [] ∧ hunk.IsChain Precedes := by
  rcases List.mem_filter.mp member with ⟨inside, changes⟩
  constructor
  · rintro rfl
    cases changes
  · refine isChain_collect ?_ hunk inside
    rw [List.nil_append]
    exact isChain_trim (isChain_locate pieces 0 0)

/-! ## One hunk -/

def oldLines (hunk : List Located) : List Line := hunk.flatMap fun located => located.piece.old

def newLines (hunk : List Located) : List Line := hunk.flatMap fun located => located.piece.new

theorem oldLines_cons (located : Located) (rest : List Located) :
    oldLines (located :: rest) = located.piece.old ++ oldLines rest := List.flatMap_cons

theorem newLines_cons (located : Located) (rest : List Located) :
    newLines (located :: rest) = located.piece.new ++ newLines rest := List.flatMap_cons

/-- The pieces of a hunk change one stretch of lines, from where the first of them starts to where the
last one stops. -/
theorem Turns.exists_of_chain {first : Located} {pieces rest : List Located} {oldPlace newPlace : Nat}
    {old new : List Line} (chain : (first :: pieces).IsChain Precedes)
    (turns : Turns oldPlace newPlace (first :: pieces ++ rest) old new) :
    ∃ gap old' new', old = gap ++ (oldLines (first :: pieces) ++ old') ∧
      new = gap ++ (newLines (first :: pieces) ++ new') ∧
      first.oldStart = oldPlace + gap.length ∧ first.newStart = newPlace + gap.length ∧
      ∃ last ∈ (first :: pieces).getLast?,
        last.oldStop = first.oldStart + (oldLines (first :: pieces)).length ∧
        last.newStop = first.newStart + (newLines (first :: pieces)).length ∧
        Turns last.oldStop last.newStop rest old' new' := by
  induction pieces generalizing first oldPlace newPlace old new with
  | nil =>
      cases turns with
      | @cons _ _ gap old new _ _ oldStarts newStarts behind =>
          refine ⟨gap, old, new, ?_, ?_, oldStarts, newStarts, first, rfl, ?_, ?_, behind⟩
          all_goals simp [oldLines, newLines, Located.oldStop, Located.newStop]
  | cons second others induction =>
      rw [List.isChain_cons_cons] at chain
      cases turns with
      | @cons _ _ gap _ _ _ _ oldStarts newStarts behind =>
          rcases induction chain.2 behind with
            ⟨between, old', new', rfl, rfl, starts, _, last, final, stops, stops', later⟩
          have none : between = [] := by
            apply List.eq_nil_of_length_eq_zero
            have direct := chain.1.1
            omega
          subst none
          refine ⟨gap, old', new', ?_, ?_, oldStarts, newStarts, last, ?_, ?_, ?_, later⟩
          · rw [oldLines_cons first, List.nil_append, List.append_assoc]
          · rw [newLines_cons first, List.nil_append, List.append_assoc]
          · exact final
          · rw [stops, chain.1.1, oldLines_cons first, List.length_append, Located.oldStop,
              Nat.add_assoc]
          · rw [stops', chain.1.2, newLines_cons first, List.length_append, Located.newStop,
              Nat.add_assoc]

/-! ## How far hunks reach -/

/-- Behind the last piece all lines stay, and others could stand in their place. -/
theorem Turns.exists_reach {items : List Located} {oldPlace newPlace : Nat} {old new : List Line}
    (turns : Turns oldPlace newPlace items old new) :
    ∃ front front' tail, old = front ++ tail ∧ new = front' ++ tail ∧
      (∀ others, Turns oldPlace newPlace items (front ++ others) (front' ++ others)) ∧
      (∀ last ∈ items.getLast?,
        last.oldStop = oldPlace + front.length ∧ last.newStop = newPlace + front'.length) ∧
      (items = [] → front = [] ∧ front' = []) ∧ oldLines items ⊆ front ∧ newLines items ⊆ front' := by
  induction turns with
  | nil lines => exact ⟨[], [], lines, rfl, rfl, .nil, nofun, fun _ => ⟨rfl, rfl⟩, nofun, nofun⟩
  | @cons oldPlace newPlace gap _ _ located rest oldStarts newStarts _ induction =>
      rcases induction with
        ⟨front, front', tail, rfl, rfl, turns, reach, none, inOld, inNew⟩
      refine ⟨gap ++ (located.piece.old ++ front), gap ++ (located.piece.new ++ front'), tail,
        by simp, by simp, ?_, ?_, nofun, ?_, ?_⟩
      · intro others
        rw [List.append_assoc, List.append_assoc, List.append_assoc, List.append_assoc]
        exact .cons oldStarts newStarts (turns others)
      · intro last found
        rw [List.length_append, List.length_append, List.length_append, List.length_append]
        cases rest with
        | nil =>
            obtain rfl : located = last := Option.some.inj found
            rcases none rfl with ⟨rfl, rfl⟩
            rw [Located.oldStop, Located.newStop, oldStarts, newStarts]
            exact ⟨by simp [Nat.add_assoc], by simp [Nat.add_assoc]⟩
        | cons next others =>
            rcases reach last found with ⟨stop, stop'⟩
            rw [stop, stop', Located.oldStop, Located.newStop, oldStarts, newStarts]
            exact ⟨by omega, by omega⟩
      · rw [oldLines_cons]
        exact List.subset_append_of_subset_right gap
          (List.append_subset.mpr ⟨List.subset_append_left _ _,
            List.subset_append_of_subset_right _ inOld⟩)
      · rw [newLines_cons]
        exact List.subset_append_of_subset_right gap
          (List.append_subset.mpr ⟨List.subset_append_left _ _,
            List.subset_append_of_subset_right _ inNew⟩)

end ImportBlock.Diff
