import Mathlib.Data.List.Basic

/-! Paragraphs: texts without empty lines. A text that they are put together to, with an empty line
between each and the next, falls into them again where it is cut at the empty lines. -/

namespace ImportBlock.Text

/-- A text cut at two line feeds, wherever they occur from the left on. -/
def paragraphs : List Char → List (List Char)
  | '\n' :: '\n' :: rest => [] :: paragraphs rest
  | c :: rest => (paragraphs rest).modifyHead (c :: ·)
  | [] => [[]]

example : paragraphs "a\n\n\nb\n\n".toList = ["a".toList, "\nb".toList, []] := by decide

theorem paragraphs_cons_of_ne {c : Char} (visible : c ≠ '\n') (rest : List Char) :
    paragraphs (c :: rest) = (paragraphs rest).modifyHead (c :: ·) := by
  rw [paragraphs]
  intro _ feed _
  exact visible feed

theorem paragraphs_append_of_not_mem {line : List Char} (whole : '\n' ∉ line) (rest : List Char) :
    paragraphs (line ++ rest) = (paragraphs rest).modifyHead (line ++ ·) := by
  induction line with
  | nil => exact (congrFun List.modifyHead_id _).symm
  | cons c others induction =>
      rw [List.cons_append, paragraphs_cons_of_ne (List.ne_of_not_mem_cons whole).symm,
        induction (List.not_mem_of_not_mem_cons whole), List.modifyHead_modifyHead]
      rfl

/-- Texts none of whose lines is empty. -/
inductive IsParagraph : List Char → Prop
  | line {line : List Char} (nonempty : line ≠ []) (whole : '\n' ∉ line) : IsParagraph line
  | more {line rest : List Char} (nonempty : line ≠ []) (whole : '\n' ∉ line)
      (behind : IsParagraph rest) : IsParagraph (line ++ '\n' :: rest)

namespace IsParagraph

variable {text : List Char}

theorem append {left right : List Char} (first : IsParagraph left) (second : IsParagraph right) :
    IsParagraph (left ++ '\n' :: right) := by
  induction first with
  | line nonempty whole => exact .more nonempty whole second
  | more nonempty whole _ induction =>
      rw [List.append_assoc, List.cons_append]
      exact .more nonempty whole induction

theorem intercalate {texts : List (List Char)} (nonempty : texts ≠ [])
    (each : ∀ text ∈ texts, IsParagraph text) : IsParagraph (['\n'].intercalate texts) := by
  induction texts with
  | nil => exact absurd rfl nonempty
  | cons text rest induction =>
      have parts := List.forall_mem_cons.mp each
      cases rest with
      | nil => simpa using parts.1
      | cons next others =>
          rw [List.intercalate_cons_cons, List.append_assoc]
          exact parts.1.append (induction (List.cons_ne_nil _ _) parts.2)

theorem ne_nil_of_mem_splitOn (paragraph : IsParagraph text) :
    ∀ line ∈ text.splitOn '\n', line ≠ [] := by
  induction paragraph with
  | line nonempty whole =>
      rw [List.splitOn_eq_singleton whole]
      simpa using nonempty
  | more nonempty whole _ induction =>
      rw [List.splitOn_append_cons_self_of_not_mem whole]
      exact List.forall_mem_cons.mpr ⟨nonempty, induction⟩

theorem exists_eq_cons (paragraph : IsParagraph text) :
    ∃ c rest, text = c :: rest ∧ c ≠ '\n' := by
  have start : ∀ {line : List Char}, line ≠ [] → '\n' ∉ line → ∀ behind : List Char,
      ∃ c rest, line ++ behind = c :: rest ∧ c ≠ '\n' := by
    intro line nonempty whole behind
    rcases List.exists_cons_of_ne_nil nonempty with ⟨c, rest, rfl⟩
    exact ⟨c, rest ++ behind, rfl, (List.ne_of_not_mem_cons whole).symm⟩
  cases paragraph with
  | line nonempty whole => simpa using start nonempty whole []
  | more nonempty whole _ => exact start nonempty whole _

theorem paragraphs_append (paragraph : IsParagraph text) (rest : List Char) :
    paragraphs (text ++ rest) = (paragraphs rest).modifyHead (text ++ ·) := by
  induction paragraph with
  | line _ whole => exact paragraphs_append_of_not_mem whole rest
  | @more line text _ whole behind induction =>
      rcases behind.exists_eq_cons with ⟨c, others, equal, visible⟩
      have feed : paragraphs ('\n' :: (text ++ rest)) =
          (paragraphs (text ++ rest)).modifyHead ('\n' :: ·) := by
        rw [equal, List.cons_append, paragraphs]
        intro _ _ again
        exact visible (List.cons.inj again).1
      rw [List.append_assoc, paragraphs_append_of_not_mem whole, List.cons_append, feed, induction,
        List.modifyHead_modifyHead, List.modifyHead_modifyHead]
      congr 1
      funext front
      simp

end IsParagraph

theorem paragraphs_intercalate {texts : List (List Char)} (nonempty : texts ≠ [])
    (each : ∀ text ∈ texts, IsParagraph text) :
    paragraphs (['\n', '\n'].intercalate texts) = texts := by
  induction texts with
  | nil => exact absurd rfl nonempty
  | cons text rest induction =>
      have parts := List.forall_mem_cons.mp each
      cases rest with
      | nil =>
          have whole := parts.1.paragraphs_append []
          rw [List.append_nil] at whole
          rw [List.intercalate_singleton, whole, paragraphs, List.modifyHead_cons, List.append_nil]
      | cons next others =>
          have later := induction (List.cons_ne_nil _ _) parts.2
          rw [List.intercalate_cons_cons, List.append_assoc, parts.1.paragraphs_append]
          change ([] :: paragraphs (['\n', '\n'].intercalate (next :: others))).modifyHead _ = _
          rw [later, List.modifyHead_cons, List.append_nil]

end ImportBlock.Text
