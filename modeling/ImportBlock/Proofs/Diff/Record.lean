import ImportBlock.Diff.Unified

/-! A text cut behind each line feed, and how this agrees with its lines: a line that ends with a line
feed is a piece of its own. -/

namespace ImportBlock

namespace Text

/-- A text cut behind each line feed. -/
def records : List Char → List (List Char)
  | [] => []
  | c :: rest =>
      if c = '\n' then [c] :: records rest
      else match records rest with
        | [] => [[c]]
        | first :: others => (c :: first) :: others

theorem flatten_records (text : List Char) : (records text).flatten = text := by
  fun_induction records text with
  | case1 => rfl
  | case2 rest induction => simp [induction]
  | case3 c rest _ empty induction => simp_all
  | case4 c rest _ first others equal induction => simp_all

/-- Whether a line ends with a line feed and holds no other one. -/
def IsRecord (line : List Char) : Prop := ∃ body, line = body ++ ['\n'] ∧ '\n' ∉ body

theorem isRecord_cons {c : Char} {line : List Char} (other : c ≠ '\n') (isRecord : IsRecord line) :
    IsRecord (c :: line) := by
  rcases isRecord with ⟨body, rfl, within⟩
  exact ⟨c :: body, rfl, List.not_mem_cons_of_ne_of_not_mem other.symm within⟩

theorem records_append {line : List Char} (isRecord : IsRecord line) (rest : List Char) :
    records (line ++ rest) = line :: records rest := by
  rcases isRecord with ⟨body, rfl, within⟩
  induction body with
  | nil =>
      rw [List.nil_append, List.singleton_append, records, if_pos rfl]
  | cons c body induction =>
      rw [List.mem_cons, not_or] at within
      rw [List.cons_append, List.cons_append, records, if_neg (Ne.symm within.1),
        induction within.2]

theorem records_flatten_append {lines : List (List Char)} (each : ∀ line ∈ lines, IsRecord line)
    (rest : List Char) : records (lines.flatten ++ rest) = lines ++ records rest := by
  induction lines with
  | nil => rfl
  | cons line others induction =>
      have parts := List.forall_mem_cons.mp each
      rw [List.flatten_cons, List.append_assoc, records_append parts.1, induction parts.2,
        List.cons_append]

theorem records_flatten {lines : List (List Char)} (each : ∀ line ∈ lines, IsRecord line) :
    records lines.flatten = lines := by
  have whole := records_flatten_append each []
  rwa [List.append_nil, records, List.append_nil] at whole

/-- A line feed stands nowhere in a line but at its end. -/
theorem of_mem_lines {text line : List Char} (member : line ∈ lines text) :
    line ≠ [] ∧ '\n' ∉ line.dropLast := by
  fun_induction lines text generalizing line with
  | case1 => cases member
  | case2 rest induction =>
      rcases List.mem_cons.mp member with rfl | inside
      · decide
      · exact induction inside
  | case3 c rest _ breaks induction =>
      rcases List.mem_cons.mp member with rfl | inside
      · exact ⟨List.cons_ne_nil _ _, List.not_mem_nil⟩
      · exact induction inside
  | case4 c rest _ noBreak empty induction =>
      rw [List.mem_singleton.mp member]
      exact ⟨List.cons_ne_nil _ _, List.not_mem_nil⟩
  | case5 c rest _ noBreak first others equal induction =>
      rw [equal] at induction
      rcases List.mem_cons.mp member with rfl | inside
      · have behind := induction List.mem_cons_self
        refine ⟨List.cons_ne_nil _ _, ?_⟩
        rw [List.dropLast_cons_of_ne_nil behind.1, List.mem_cons, not_or]
        refine ⟨?_, behind.2⟩
        rintro rfl
        exact noBreak rfl
      · exact induction (List.mem_cons_of_mem _ inside)

theorem isRecord_of_getLast? {line : List Char} (within : '\n' ∉ line.dropLast)
    (ends : line.getLast? = some '\n') : IsRecord line := by
  rcases List.getLast?_eq_some_iff.mp ends with ⟨body, rfl⟩
  rw [List.dropLast_concat] at within
  exact ⟨body, rfl, within⟩

theorem not_mem_of_getLast? {line : List Char} (within : '\n' ∉ line.dropLast)
    (ends : line.getLast? ≠ some '\n') : '\n' ∉ line := by
  rcases List.eq_nil_or_concat line with rfl | ⟨body, last, rfl⟩
  · exact List.not_mem_nil
  · rw [List.concat_eq_append] at within ends ⊢
    rw [List.dropLast_concat] at within
    rw [List.getLast?_concat, ne_eq, Option.some.injEq] at ends
    rw [List.mem_append, List.mem_singleton, not_or]
    exact ⟨within, Ne.symm ends⟩

/-- A text with a line feed at its end, unless it is empty. -/
def closed (text : List Char) : List Char :=
  if text = [] ∨ text.getLast? = some '\n' then text else text ++ ['\n']

end Text

namespace Diff

theorem closedLines_cases (text : List Char) :
    (text = [] ∧ closedLines text = []) ∨
      (text.getLast? = some '\n' ∧ closedLines text = Text.lines text) ∨
      ∃ others last, Text.lines text = others ++ [last] ∧ text ≠ [] ∧
        text.getLast? ≠ some '\n' ∧ '\n' ∉ last ∧ closedLines text = others ++ [last ++ ['\n']] := by
  have whole := Text.flatten_lines text
  cases ends : (Text.lines text).getLast? with
  | none =>
      left
      rw [List.getLast?_eq_none_iff.mp ends] at whole
      exact ⟨whole.symm, by simp only [closedLines, ends]⟩
  | some last =>
      right
      rcases List.getLast?_eq_some_iff.mp ends with ⟨others, equal⟩
      have found := Text.of_mem_lines (List.mem_of_getLast? ends)
      have same : text.getLast? = last.getLast? := by
        rw [← whole, equal, List.flatten_append, List.flatten_singleton, List.getLast?_append,
          List.getLast?_eq_some_getLast found.1, Option.some_or]
      by_cases feed : last.getLast? = some '\n'
      · exact .inl ⟨same.trans feed, by simp only [closedLines, ends, if_pos feed]⟩
      · refine .inr ⟨others, last, equal, ?_, same ▸ feed, Text.not_mem_of_getLast? found.2 feed, ?_⟩
        · rintro rfl
          simp [Text.lines] at equal
        · simp only [closedLines, ends, if_neg feed]
          rw [equal, List.dropLast_concat]

theorem flatten_closedLines (text : List Char) : (closedLines text).flatten = Text.closed text := by
  have whole := Text.flatten_lines text
  rcases closedLines_cases text with
    ⟨rfl, equal⟩ | ⟨feed, equal⟩ | ⟨others, last, split, nonempty, noFeed, _, equal⟩
  · rw [equal]
    rfl
  · rw [equal, whole, Text.closed, if_pos (.inr feed)]
  · rw [equal, Text.closed, if_neg (not_or.mpr ⟨nonempty, noFeed⟩), ← whole, split]
    simp

theorem isRecord_of_mem_closedLines {text line : List Char} (member : line ∈ closedLines text)
    (ends : line.getLast? = some '\n') : Text.IsRecord line := by
  rcases closedLines_cases text with
    ⟨_, equal⟩ | ⟨_, equal⟩ | ⟨others, last, split, _, _, within, equal⟩
  · rw [equal] at member
    cases member
  · rw [equal] at member
    exact Text.isRecord_of_getLast? (Text.of_mem_lines member).2 ends
  · rw [equal] at member
    rcases List.mem_append.mp member with inside | isLast
    · have inside : line ∈ Text.lines text := split ▸ List.mem_append_left _ inside
      exact Text.isRecord_of_getLast? (Text.of_mem_lines inside).2 ends
    · exact ⟨last, List.mem_singleton.mp isLast, within⟩

end Diff

end ImportBlock
