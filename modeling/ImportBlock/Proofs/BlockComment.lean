import ImportBlock.Proofs.Lexeme

/-! Block comments and their nesting. A comment is a text whose opening and closing marks belong to
each other in pairs, the first mark to the last; marks are told apart from left to right. -/

namespace ImportBlock.Lexeme

/-! ## Marks -/

inductive CommentMark
  | opening
  | closing
  | character (c : Char)

def commentMarks : List Char → List CommentMark
  | [] => []
  | '/' :: '*' :: rest => .opening :: commentMarks rest
  | '*' :: '/' :: rest => .closing :: commentMarks rest
  | c :: rest => .character c :: commentMarks rest

/-- Whether each opening mark has a closing mark of its own behind it, and the other way around. -/
inductive Nested : List CommentMark → Prop
  | nil : Nested []
  | character {c : Char} {rest : List CommentMark} (behind : Nested rest) :
      Nested (.character c :: rest)
  | comment {inner rest : List CommentMark} (inside : Nested inner) (behind : Nested rest) :
      Nested (.opening :: (inner ++ .closing :: rest))

/-- Whether a text is one block comment, which ends where its first mark is closed. -/
def IsBlockComment (text : List Char) : Prop :=
  ∃ inner, Nested inner ∧ commentMarks text = .opening :: (inner ++ [.closing])

/-- Whether marks close a comment and the `depth` comments around it, and end there. -/
def Closes : (depth : Nat) → List CommentMark → Prop
  | 0, marks => ∃ inner, Nested inner ∧ marks = inner ++ [.closing]
  | depth + 1, marks =>
      ∃ inner rest, Nested inner ∧ Closes depth rest ∧ marks = inner ++ .closing :: rest

theorem closes_iff {depth : Nat} {marks : List CommentMark} :
    Closes depth marks ↔ ∃ inner rest, Nested inner ∧ marks = inner ++ .closing :: rest ∧
      (depth = 0 ∧ rest = [] ∨ ∃ outer, depth = outer + 1 ∧ Closes outer rest) := by
  cases depth with
  | zero => simp [Closes]
  | succ depth => simp [Closes, and_comm]

theorem not_closes_nil (depth : Nat) : ¬Closes depth [] := by
  rw [closes_iff]
  rintro ⟨inner, rest, _, ends, _⟩
  simp at ends

theorem closes_character {depth : Nat} {c : Char} {marks : List CommentMark} :
    Closes depth (.character c :: marks) ↔ Closes depth marks := by
  rw [closes_iff, closes_iff]
  constructor
  · rintro ⟨inner, rest, nested, equal, outer⟩
    cases nested with
    | character behind => exact ⟨_, rest, behind, (List.cons.inj equal).2, outer⟩
    | _ => simp at equal
  · rintro ⟨inner, rest, nested, rfl, outer⟩
    exact ⟨.character c :: inner, rest, .character nested, rfl, outer⟩

theorem closes_closing {depth : Nat} {marks : List CommentMark} :
    Closes depth (.closing :: marks) ↔
      depth = 0 ∧ marks = [] ∨ ∃ outer, depth = outer + 1 ∧ Closes outer marks := by
  rw [closes_iff]
  constructor
  · rintro ⟨inner, rest, nested, equal, outer⟩
    cases nested with
    | nil => rwa [(List.cons.inj equal).2]
    | _ => simp at equal
  · intro outer
    exact ⟨[], marks, .nil, rfl, outer⟩

theorem closes_opening {depth : Nat} {marks : List CommentMark} :
    Closes depth (.opening :: marks) ↔ Closes (depth + 1) marks := by
  rw [closes_iff, Closes]
  constructor
  · rintro ⟨inner, rest, nested, equal, outer⟩
    cases nested with
    | comment inside behind =>
        refine ⟨_, _, inside, closes_iff.mpr ⟨_, rest, behind, rfl, outer⟩, ?_⟩
        simpa using equal
    | _ => simp at equal
  · rintro ⟨inner, rest, inside, closes, rfl⟩
    rcases closes_iff.mp closes with ⟨others, behind, nested, rfl, outer⟩
    exact ⟨_, behind, .comment inside nested, by simp, outer⟩

/-! ## Comments as they are scanned -/

theorem commentLength_eq_length_iff {depth : Nat} {body : List Char} :
    commentLength depth body = some body.length ↔ Closes depth (commentMarks body) := by
  fun_induction commentLength depth body with
  | case1 => simp [commentMarks, not_closes_nil]
  | case2 depth rest induction => simp [commentMarks, closes_opening, ← induction]
  | case3 rest =>
      have ends : commentMarks rest = [] ↔ rest = [] := by
        constructor
        · intro none
          unfold commentMarks at none
          split at none <;> simp_all
        · rintro rfl
          rfl
      simp [commentMarks, closes_closing, ends, eq_comm]
  | case4 rest depth induction => simp [commentMarks, closes_closing, ← induction]
  | case5 depth c rest notOpening notClosing induction =>
      simp [commentMarks, closes_character, ← induction]

theorem isBlockComment_iff {body : List Char} :
    IsBlockComment ('/' :: '*' :: body) ↔ commentLength 0 body = some body.length := by
  rw [commentLength_eq_length_iff]
  simp [IsBlockComment, commentMarks, Closes]

theorem IsBlockComment.exists_eq {text : List Char} (comment : IsBlockComment text) :
    ∃ body, text = '/' :: '*' :: body ∧ commentLength 0 body = some body.length := by
  have begins : ∃ body, text = '/' :: '*' :: body := by
    rcases comment with ⟨inner, _, marks⟩
    unfold commentMarks at marks
    split at marks
    · cases marks
    · exact ⟨_, rfl⟩
    · cases marks
    · cases marks
  rcases begins with ⟨body, rfl⟩
  exact ⟨body, rfl, isBlockComment_iff.mp comment⟩

theorem commentLength_eq_none_iff {tail : List Char} :
    commentLength 0 tail = none ↔
      ∀ comment rest, IsBlockComment comment → '/' :: '*' :: tail ≠ comment ++ rest := by
  constructor
  · intro endless comment rest isComment equal
    rcases isComment.exists_eq with ⟨body, rfl, closed⟩
    rw [List.cons_append, List.cons_append] at equal
    rw [(List.cons.inj (List.cons.inj equal).2).2, commentLength_append closed rest] at endless
    cases endless
  · intro none
    cases found : commentLength 0 tail with
    | none => rfl
    | some length =>
        rcases exists_of_commentLength found with ⟨body, rest, rfl, _, whole⟩
        exact absurd rfl (none _ rest (isBlockComment_iff.mpr whole))

example : IsBlockComment "/*/* a */*/".toList :=
  isBlockComment_iff.mpr rfl

end ImportBlock.Lexeme
