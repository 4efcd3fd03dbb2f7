import ImportBlock.Proofs.Diff.Diagonal
import ImportBlock.Proofs.Diff.Record
import Mathlib

/-! When the diff of two texts is empty. Distinct texts have distinct lines, but the last line is closed
before lines are compared. So a line feed that only ends the last line is not seen. -/

namespace ImportBlock

/-! ## A line feed at the end -/

namespace Text

/-- Whether a line feed behind a text would belong to its last line: the text does not end with a line
break, or with a carriage return, which makes one break with the line feed. -/
def EndsOpen (text : List Char) : Prop :=
  ∃ last ∈ text.getLast?, last = '\r' ∨ breaksLine last = false

instance (text : List Char) : Decidable (EndsOpen text) :=
  decidable_of_iff (text.getLast?.any (fun last => last == '\r' || !breaksLine last) = true)
    (by simp [EndsOpen, Option.any_eq_true])

example : EndsOpen "a\n\r".toList := by decide
example : ¬EndsOpen "a\x0c".toList := by decide

theorem not_endsOpen_nil : ¬EndsOpen [] := by
  intro endsOpen
  rcases endsOpen with ⟨last, none, _⟩
  cases none

theorem endsOpen_cons {rest : List Char} (behind : rest ≠ []) (c : Char) :
    EndsOpen (c :: rest) ↔ EndsOpen rest := by
  rw [EndsOpen, EndsOpen, List.getLast?_cons_of_ne_nil behind]

theorem getLast?_ne_of_endsOpen {text : List Char} (endsOpen : EndsOpen text) :
    text ≠ [] ∧ text.getLast? ≠ some '\n' := by
  rcases endsOpen with ⟨last, final, kind⟩
  constructor
  · rintro rfl
    cases final
  · intro feed
    rw [feed] at final
    cases final
    revert kind
    decide

theorem lines_eq_nil_iff {text : List Char} : lines text = [] ↔ text = [] := by
  constructor
  · intro none
    rw [← flatten_lines text, none]
    rfl
  · rintro rfl
    rfl

theorem lines_cons_of_breaks {c : Char} {rest : List Char} (breaks : breaksLine c = true)
    (single : c = '\r' → rest.head? ≠ some '\n') : lines (c :: rest) = [c] :: lines rest := by
  rw [lines, if_pos breaks]
  rintro others rfl rfl
  exact single rfl rfl

theorem lines_cons_of_not_breaks {c : Char} {rest first : List Char} {others : List (List Char)}
    (plain : breaksLine c = false) (behind : lines rest = first :: others) :
    lines (c :: rest) = (c :: first) :: others := by
  rw [lines, if_neg (by simp [plain]), behind]
  rintro _ rfl
  cases plain

/-- How the lines of a text change with a line feed behind it: it ends the last line, or it is a line of
its own. -/
structure FeedsLast (text : List Char) : Prop where
  joined : EndsOpen text → ∃ others last, lines text = others ++ [last] ∧
    lines (text ++ ['\n']) = others ++ [last ++ ['\n']]
  apart : ¬EndsOpen text → lines (text ++ ['\n']) = lines text ++ [['\n']]

theorem FeedsLast.behind_line {line rest : List Char} (feedsLast : FeedsLast rest)
    (ends : EndsOpen (line ++ rest) ↔ EndsOpen rest)
    (plain : lines (line ++ rest) = line :: lines rest)
    (fed : lines (line ++ (rest ++ ['\n'])) = line :: lines (rest ++ ['\n'])) :
    FeedsLast (line ++ rest) where
  joined endsOpen := by
    rcases feedsLast.joined (ends.mp endsOpen) with ⟨others, last, equal, equal'⟩
    refine ⟨line :: others, last, ?_, ?_⟩
    · rw [plain, equal, List.cons_append]
    · rw [List.append_assoc, fed, equal', List.cons_append]
  apart closed := by
    rw [List.append_assoc, fed, plain, feedsLast.apart fun endsOpen => closed (ends.mpr endsOpen),
      List.cons_append]

theorem feedsLast (text : List Char) : FeedsLast text := by
  fun_induction lines text with
  | case1 => exact ⟨fun endsOpen => absurd endsOpen not_endsOpen_nil, fun _ => rfl⟩
  | case2 rest induction =>
      refine @FeedsLast.behind_line ['\r', '\n'] rest induction ?_ rfl rfl
      cases rest with
      | nil => decide
      | cons first others => simp [EndsOpen]
  | case3 c rest single breaks induction =>
      have alone : c = '\r' → rest.head? ≠ some '\n' := by
        rintro rfl starts
        rcases List.head?_eq_some_iff.mp starts with ⟨others, rfl⟩
        exact single others rfl rfl
      by_cases whole : rest = [] ∧ c = '\r'
      · rcases whole with ⟨rfl, rfl⟩
        exact ⟨fun _ => ⟨[], ['\r'], rfl, rfl⟩, fun closed => absurd (by decide) closed⟩
      · refine @FeedsLast.behind_line [c] rest induction ?_ (lines_cons_of_breaks breaks alone) ?_
        · cases rest with
          | nil =>
              have other : c ≠ '\r' := fun equal => whole ⟨rfl, equal⟩
              simp [EndsOpen, breaks, other]
          | cons first others => simp [EndsOpen]
        · apply lines_cons_of_breaks breaks
          intro equal
          cases rest with
          | nil => exact absurd ⟨rfl, equal⟩ whole
          | cons first others => exact alone equal
  | case4 c rest single plain none =>
      rw [lines_eq_nil_iff.mp none]
      have endsOpen : EndsOpen [c] := ⟨c, rfl, .inr (by simpa using plain)⟩
      refine ⟨fun _ => ⟨[], [c], ?_, ?_⟩, fun closed => absurd endsOpen closed⟩
      · rw [lines, if_neg plain]
        · rfl
        · rintro _ _ equal
          cases equal
      · exact lines_cons_of_not_breaks (by simpa using plain) rfl
  | case5 c rest single plain first others equal induction =>
      have plain : breaksLine c = false := by simpa using plain
      have behind : rest ≠ [] := by
        rintro rfl
        cases equal
      have whole := lines_cons_of_not_breaks plain equal
      constructor
      · intro endsOpen
        rcases induction.joined ((endsOpen_cons behind c).mp endsOpen) with
          ⟨front, last, split, fed⟩
        rw [split] at equal
        cases front with
        | nil =>
            cases equal
            exact ⟨[], c :: first, whole, lines_cons_of_not_breaks plain fed⟩
        | cons _ front =>
            cases equal
            exact ⟨(c :: first) :: front, last, whole, lines_cons_of_not_breaks plain fed⟩
      · intro closed
        have fed := induction.apart fun endsOpen => closed ((endsOpen_cons behind c).mpr endsOpen)
        rw [equal] at fed
        rw [whole]
        exact lines_cons_of_not_breaks plain fed

end Text

namespace Diff

theorem length_closedLines (text : List Char) :
    (closedLines text).length = (Text.lines text).length := by
  rcases closedLines_cases text with
    ⟨rfl, equal⟩ | ⟨_, equal⟩ | ⟨others, last, split, _, _, _, equal⟩
  · rw [equal]
    rfl
  · rw [equal]
  · rw [equal, split, List.length_append, List.length_append]
    rfl

theorem closedLines_append_feed (text : List Char) :
    closedLines (text ++ ['\n']) = Text.lines (text ++ ['\n']) := by
  rcases closedLines_cases (text ++ ['\n']) with
    ⟨none, _⟩ | ⟨_, equal⟩ | ⟨_, _, _, _, noFeed, _⟩
  · simp at none
  · exact equal
  · simp at noFeed

theorem closedLines_eq_append_feed_iff {text : List Char} :
    closedLines text = closedLines (text ++ ['\n']) ↔ Text.EndsOpen text := by
  rw [closedLines_append_feed]
  constructor
  · intro same
    by_contra closed
    rw [(Text.feedsLast text).apart closed] at same
    have length := congrArg List.length same
    rw [length_closedLines, List.length_append] at length
    simp at length
  · intro endsOpen
    have noFeed := Text.getLast?_ne_of_endsOpen endsOpen
    rcases (Text.feedsLast text).joined endsOpen with ⟨others, last, equal, fed⟩
    rcases closedLines_cases text with
      ⟨none, _⟩ | ⟨feed, _⟩ | ⟨others', last', split, _, _, _, closed⟩
    · exact absurd none noFeed.1
    · exact absurd feed noFeed.2
    · rcases List.append_singleton_inj.mp (equal.symm.trans split) with ⟨rfl, rfl⟩
      rw [closed, fed]

/-- The lines of two texts are the same exactly if the texts are equal, or one of them is the other one with
its last line ended by a line feed. -/
theorem closedLines_eq_iff {old new : List Char} : closedLines old = closedLines new ↔
    old = new ∨ (Text.EndsOpen old ∧ new = old ++ ['\n']) ∨
      (Text.EndsOpen new ∧ old = new ++ ['\n']) := by
  constructor
  · intro same
    have texts : Text.closed old = Text.closed new := by
      rw [← flatten_closedLines, same, flatten_closedLines]
    unfold Text.closed at texts
    split_ifs at texts
    · exact .inl texts
    · rw [texts] at same
      exact .inr (.inr ⟨closedLines_eq_append_feed_iff.mp same.symm, texts⟩)
    · rw [← texts] at same
      exact .inr (.inl ⟨closedLines_eq_append_feed_iff.mp same, texts.symm⟩)
    · exact .inl (List.append_cancel_right texts)
  · intro related
    rcases related with rfl | ⟨endsOpen, rfl⟩ | ⟨endsOpen, rfl⟩
    · rfl
    · exact closedLines_eq_append_feed_iff.mpr endsOpen
    · exact (closedLines_eq_append_feed_iff.mpr endsOpen).symm

theorem unified_eq_empty_iff_closedLines {old new fileName : String} {context : Nat} :
    unified old new fileName context = "" ↔ closedLines old.toList = closedLines new.toList := by
  have written : ∀ hunks : List (List Located), "--- a/" ++ fileName ++ "\n+++ b/" ++ fileName ++
      "\n" ++ String.ofList (hunks.flatMap hunkText) ≠ "" := by
    intro hunks empty
    simp at empty
  rw [← @hunks_eq_nil_iff context, unified]
  split
  · next unchanged =>
      rw [Bool.or_eq_true, decide_eq_true_eq, decide_eq_true_eq] at unchanged
      refine iff_of_true rfl ?_
      rcases unchanged with rfl | none
      · exact hunks_eq_nil_iff.mpr rfl
      · exact none
  · next changed =>
      refine iff_of_false (written _) ?_
      intro none
      exact changed (by simp [none])

/-- The diff of two texts is empty exactly if they are equal, or one of them is the other one with its last
line ended by a line feed. -/
theorem unified_eq_empty_iff (old new fileName : String) (context : Nat) :
    unified old new fileName context = "" ↔
      old = new ∨ (Text.EndsOpen old.toList ∧ new = old ++ "\n") ∨
        (Text.EndsOpen new.toList ∧ old = new ++ "\n") := by
  have feed : ∀ {left right : String}, left.toList = right.toList ++ ['\n'] ↔ left = right ++ "\n" := by
    intro left right
    rw [← String.toList_inj, String.toList_append]
    rfl
  rw [unified_eq_empty_iff_closedLines, closedLines_eq_iff, String.toList_inj, feed, feed]

/-- A line feed at the end of the last line is a change that the diff does not show. -/
theorem unified_eq_empty_final_feed : "use a;" ≠ "use a;\n" ∧
    unified "use a;" "use a;\n" "a.rs" = "" := by
  constructor
  · decide
  · cbv

end Diff

end ImportBlock
