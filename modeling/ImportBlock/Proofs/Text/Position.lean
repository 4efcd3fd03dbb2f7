import ImportBlock.Text.Lines
import Mathlib

/-! Places in a text read back: a line and a column tell how many characters stand in front of them. -/

namespace ImportBlock.Text.Position

/-- How many characters stand in front of the line that some line feeds precede. -/
def lineStart : List Char → Nat → Nat
  | _, 0 => 0
  | [], _ => 0
  | c :: rest, feeds + 1 => lineStart rest (if c = '\n' then feeds else feeds + 1) + 1

/-- How many characters stand in front of a place. -/
def offset (text : List Char) (position : Position) : Nat :=
  lineStart text (position.line - 1) + (position.column - 1)

theorem lineStart_zero (text : List Char) : lineStart text 0 = 0 := by
  cases text <;> rfl

theorem lineStart_append (before rest : List Char) :
    lineStart (before ++ '\n' :: rest) (before.count '\n' + 1) = before.length + 1 := by
  induction before with
  | nil =>
      rw [List.nil_append, List.count_nil, lineStart, if_pos rfl, lineStart_zero, List.length_nil]
  | cons c others induction =>
      rw [List.cons_append, lineStart, List.length_cons, ← induction]
      congr 2
      by_cases feed : c = '\n'
      · rw [if_pos feed, feed, List.count_cons_self]
      · rw [if_neg feed, List.count_cons_of_ne feed]

/-- What stands in front of a place leads back to it: either it is all one line, or a last line feed ends
the lines before. -/
theorem offset_ofOffset {text : List Char} {count : Nat} (within : count ≤ text.length) :
    offset text (ofOffset text count) = count := by
  have split := List.take_append_drop count text
  have length : (text.take count).length = count := List.length_take_of_le within
  rw [ofOffset, offset, Nat.add_sub_cancel, Nat.add_sub_cancel]
  generalize text.take count = before at split length
  generalize text.drop count = after at split
  rw [← split, ← length]
  by_cases feed : '\n' ∈ before
  · rcases List.eq_append_cons_of_mem (List.mem_reverse.mpr feed) with ⟨line, lines, equal, endless⟩
    have parts : before = lines.reverse ++ '\n' :: line.reverse := by
      rw [← List.reverse_reverse before, equal]
      simp
    have run : before.reverse.takeWhile (· != '\n') = line := by
      rw [equal, List.takeWhile_append_of_pos, List.takeWhile_cons_of_neg, List.append_nil]
      · decide
      · intro c member
        exact bne_iff_ne.mpr fun same => endless (same ▸ member)
    have feeds : before.count '\n' = lines.reverse.count '\n' + 1 := by
      have none : line.reverse.count '\n' = 0 := List.count_eq_zero.mpr (by simpa using endless)
      rw [parts, List.count_append, List.count_cons_self, none]
    rw [run, feeds, parts, List.append_assoc, List.cons_append, lineStart_append]
    simp only [List.length_append, List.length_cons, List.length_reverse]
    omega
  · have run : before.reverse.takeWhile (· != '\n') = before.reverse := by
      rw [List.takeWhile_eq_self_iff]
      intro c member
      exact bne_iff_ne.mpr fun same => feed (same ▸ List.mem_reverse.mp member)
    rw [run, List.count_eq_zero.mpr feed, lineStart_zero, List.length_reverse, Nat.zero_add]

end ImportBlock.Text.Position
