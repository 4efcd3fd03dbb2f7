import ImportBlock.Proofs.Identifier
import ImportBlock.Proofs.Tree.Order
import Mathlib

/-! Paths by their texts. A valid segment has no colon in it, so that the text of a path tells where each
segment ends, and no valid name spells a keyword, so that its text tells what the segment is. -/

namespace ImportBlock

namespace Identifier

theorem colon_not_mem_run {first : Char} {rest : List Char} (begins : starts first = true)
    (stops : rest.dropWhile continues = [] ∨ rest.dropWhile continues = ['\n']) :
    ':' ∉ first :: rest := by
  have noStart : starts ':' = false := by decide
  have noPart : continues ':' = false := by decide
  intro member
  rcases List.mem_cons.mp member with rfl | inside
  · rw [noStart] at begins
    cases begins
  · rw [← @List.takeWhile_append_dropWhile _ continues rest, List.mem_append] at inside
    rcases inside with run | behind
    · have continued := List.mem_takeWhile_imp run
      rw [noPart] at continued
      cases continued
    · rcases stops with none | feed
      · rw [none] at behind
        cases behind
      · rw [feed] at behind
        revert behind
        decide

theorem colon_not_mem_of_accepts {text : List Char} (accepted : accepts text = true) :
    ':' ∉ text := by
  unfold accepts at accepted
  split at accepted
  · next rest =>
      cases rest with
      | nil => cases accepted
      | cons first others =>
          simp only [Bool.and_eq_true, Bool.or_eq_true, beq_iff_eq] at accepted
          simpa using colon_not_mem_run accepted.1 accepted.2
  · cases text with
    | nil => cases accepted
    | cons first others =>
        simp only [Bool.and_eq_true, Bool.or_eq_true, beq_iff_eq] at accepted
        exact colon_not_mem_run accepted.1 accepted.2

end Identifier

namespace Segment

theorem eq_of_text {left right : Segment} (leftValid : left.isValid = true)
    (rightValid : right.isValid = true) (equal : left.text = right.text) : left = right := by
  rcases left with ⟨kind, text⟩
  rcases right with ⟨kind', text'⟩
  change text = text' at equal
  subst equal
  cases kind <;> cases kind' <;>
    simp_all [isValid, SegmentKind.marker?, Identifier.isPathKeyword, Identifier.accepts,
      Identifier.starts]

theorem colon_not_mem_text {segment : Segment} (valid : segment.isValid = true) :
    ':' ∉ segment.text.toList := by
  rcases segment with ⟨kind, text⟩
  cases kind with
  | name =>
      simp only [isValid, SegmentKind.marker?, Bool.and_eq_true] at valid
      exact Identifier.colon_not_mem_of_accepts valid.1.1
  | _ =>
      simp only [isValid, SegmentKind.marker?, decide_eq_true_eq] at valid
      rw [valid]
      decide

end Segment

namespace Path

def behindFirst : Path → List Char
  | [] => []
  | next :: others => ':' :: ':' :: (text (next :: others)).toList

theorem toList_text_cons (first : Segment) (rest : Path) :
    (text (first :: rest)).toList = first.text.toList ++ behindFirst rest := by
  cases rest with
  | nil => simp [text, behindFirst]
  | cons next others =>
      rw [text, List.map_cons, List.map_cons, String.intercalate_cons_cons, String.toList_append,
        String.toList_append, List.append_assoc]
      rfl

theorem takeWhile_text_cons {first : Segment} {rest : Path} (valid : first.isValid = true) :
    (text (first :: rest)).toList.takeWhile (· ≠ ':') = first.text.toList := by
  have stopped : (behindFirst rest).takeWhile (· ≠ ':') = [] := by
    cases rest <;> rfl
  rw [toList_text_cons, takeWhile_append_of_stopped stopped, List.takeWhile_eq_self_iff]
  intro c member
  rw [decide_eq_true_eq]
  intro colon
  rw [colon] at member
  exact Segment.colon_not_mem_text valid member

/-- Valid paths of one text are equal. -/
theorem eq_of_text {left right : Path} (leftValid : left.IsValid) (rightValid : right.IsValid)
    (nonempty : left ≠ []) (nonempty' : right ≠ []) (equal : left.text = right.text) :
    left = right := by
  induction left generalizing right with
  | nil => exact absurd rfl nonempty
  | cons first rest induction =>
      rcases List.exists_cons_of_ne_nil nonempty' with ⟨first', rest', rfl⟩
      have valid := leftValid first List.mem_cons_self
      have valid' := rightValid first' List.mem_cons_self
      have texts : first.text = first'.text := by
        rw [← String.toList_inj, ← @takeWhile_text_cons first rest valid, equal,
          takeWhile_text_cons valid']
      have tails : behindFirst rest = behindFirst rest' := by
        have characters := congrArg String.toList equal
        rw [toList_text_cons, toList_text_cons, texts] at characters
        exact List.append_cancel_left characters
      rw [Segment.eq_of_text valid valid' texts]
      cases rest with
      | nil =>
          cases rest' with
          | nil => rfl
          | cons next others => cases tails
      | cons next others =>
          cases rest' with
          | nil => cases tails
          | cons next' others' =>
              have same : text (next :: others) = text (next' :: others') :=
                String.toList_inj.mp (List.cons.inj (List.cons.inj tails).2).2
              rw [induction leftValid.tail rightValid.tail (List.cons_ne_nil _ _)
                (List.cons_ne_nil _ _) same]

end Path

end ImportBlock
