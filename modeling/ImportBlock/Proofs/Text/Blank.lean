import ImportBlock.Text.Blank
import Mathlib.Data.List.DropRight

/-! Collapsing a text whose blanks are collapsed already changes nothing. -/

namespace ImportBlock.Text

/-- A text with its runs of blanks collapsed, but for those at its start. -/
def squeeze (text : List Char) : List Char := text.foldr collapseStep []

theorem squeeze_cons (c : Char) (rest : List Char) :
    squeeze (c :: rest) = collapseStep c (squeeze rest) := rfl

theorem isBlank_space : isBlank ' ' = true := by decide

theorem collapseStep_of_not_blank {c : Char} (visible : isBlank c = false) (rest : List Char) :
    collapseStep c rest = c :: rest := by
  simp [collapseStep, visible]

theorem collapseStep_of_blank {c : Char} (blank : isBlank c = true) (rest : List Char) :
    (rest = [] ∧ collapseStep c rest = []) ∨
    (∃ others, rest = ' ' :: others ∧ collapseStep c rest = rest) ∨
    (rest ≠ [] ∧ rest.head? ≠ some ' ' ∧ collapseStep c rest = ' ' :: rest) := by
  unfold collapseStep
  rw [if_pos blank]
  split
  · exact .inl ⟨rfl, rfl⟩
  · exact .inr (.inl ⟨_, rfl, rfl⟩)
  · next other different notSpace =>
      refine .inr (.inr ⟨different, ?_, rfl⟩)
      intro space
      rcases List.head?_eq_some_iff.mp space with ⟨others, equal⟩
      exact notSpace others equal

theorem squeeze_collapseStep (c : Char) {rest : List Char} (squeezed : squeeze rest = rest) :
    squeeze (collapseStep c rest) = collapseStep c rest := by
  cases blank : isBlank c with
  | false => rw [collapseStep_of_not_blank blank, squeeze_cons, squeezed,
      collapseStep_of_not_blank blank]
  | true =>
      rcases collapseStep_of_blank blank rest with ⟨_, equal⟩ | ⟨_, _, equal⟩ | ⟨some, other, equal⟩
      · rw [equal]
        rfl
      · rw [equal, squeezed]
      · rw [equal, squeeze_cons, squeezed]
        rcases collapseStep_of_blank isBlank_space rest with
          ⟨none, _⟩ | ⟨others, space, _⟩ | ⟨_, _, equal'⟩
        · exact absurd none some
        · rw [space] at other
          exact absurd rfl other
        · exact equal'

theorem squeeze_squeeze (text : List Char) : squeeze (squeeze text) = squeeze text := by
  induction text with
  | nil => rfl
  | cons c rest induction =>
      rw [squeeze_cons]
      exact squeeze_collapseStep c induction

theorem eq_space_of_mem_squeeze {c : Char} (blank : isBlank c = true) {text : List Char}
    (member : c ∈ squeeze text) : c = ' ' := by
  induction text with
  | nil => cases member
  | cons first rest induction =>
      rw [squeeze_cons] at member
      cases blank' : isBlank first with
      | false =>
          rw [collapseStep_of_not_blank blank'] at member
          rcases List.mem_cons.mp member with rfl | inside
          · rw [blank] at blank'
            cases blank'
          · exact induction inside
      | true =>
          rcases collapseStep_of_blank blank' (squeeze rest) with
            ⟨_, equal⟩ | ⟨_, _, equal⟩ | ⟨_, _, equal⟩ <;> rw [equal] at member
          · cases member
          · exact induction member
          · exact (List.mem_cons.mp member).elim id induction

theorem collapse_eq_squeeze (text : List Char) :
    collapse text = squeeze (text.dropWhile isBlank) := by
  change (squeeze text).dropWhile (· == ' ') = squeeze (text.dropWhile isBlank)
  induction text with
  | nil => rfl
  | cons c rest induction =>
      rw [squeeze_cons]
      cases blank : isBlank c with
      | false =>
          have different : (c == ' ') = false := by
            rw [beq_eq_false_iff_ne]
            intro space
            rw [space, isBlank_space] at blank
            cases blank
          rw [List.dropWhile_cons_of_neg (by simp [blank]), collapseStep_of_not_blank blank,
            List.dropWhile_cons_of_neg (by simp [different]), squeeze_cons,
            collapseStep_of_not_blank blank]
      | true =>
          rw [List.dropWhile_cons_of_pos blank, ← induction]
          rcases collapseStep_of_blank blank (squeeze rest) with
            ⟨none, equal⟩ | ⟨_, _, equal⟩ | ⟨_, _, equal⟩
          · rw [equal, none]
          · rw [equal]
          · rw [equal, List.dropWhile_cons_of_pos (by rfl)]

theorem eq_space_of_mem_collapse {c : Char} (blank : isBlank c = true) {text : List Char}
    (member : c ∈ collapse text) : c = ' ' :=
  eq_space_of_mem_squeeze blank (collapse_eq_squeeze text ▸ member)

theorem collapse_collapse (text : List Char) : collapse (collapse text) = collapse text := by
  have squeezed : squeeze (collapse text) = collapse text := by
    rw [collapse_eq_squeeze, squeeze_squeeze]
  calc collapse (collapse text)
      = (squeeze (collapse text)).dropWhile (· == ' ') := rfl
    _ = (collapse text).dropWhile (· == ' ') := by rw [squeezed]
    _ = collapse text := List.dropWhile_idempotent _ _

end ImportBlock.Text
