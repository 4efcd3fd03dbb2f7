import ImportBlock.Proofs.Attribute
import ImportBlock.Proofs.Identifier

/-! How a text is cut into lexemes. What a lexeme is depends on its own text and on little behind it: in
front of a semicolon the cuts are the same, whatever the text goes on with, and in front of a line feed
they are those of the text that ends there. -/

namespace ImportBlock.Lexeme

/-! ## Comments -/

theorem exists_of_commentLength {depth : Nat} {text : List Char} {length : Nat}
    (closed : commentLength depth text = some length) :
    ∃ body rest, text = body ++ rest ∧ length = body.length ∧
      commentLength depth body = some body.length := by
  fun_induction commentLength depth text generalizing length with
  | case1 => cases closed
  | case3 rest => exact ⟨['*', '/'], rest, rfl, (Option.some.inj closed).symm, rfl⟩
  | case2 depth rest induction | case4 rest depth induction =>
      rcases Option.map_eq_some_iff.mp closed with ⟨inner, found, rfl⟩
      rcases induction found with ⟨body, tail, rfl, rfl, whole⟩
      exact ⟨_ :: _ :: body, tail, rfl, rfl, by rw [commentLength, whole]; rfl⟩
  | case5 depth c rest notOpening notClosing induction =>
      rcases Option.map_eq_some_iff.mp closed with ⟨inner, found, rfl⟩
      rcases induction found with ⟨body, tail, rfl, rfl, whole⟩
      refine ⟨c :: body, tail, rfl, rfl, ?_⟩
      rw [commentLength, whole]
      · rfl
      · intro others slash equal
        exact notOpening (others ++ tail) slash (by rw [equal]; rfl)
      · intro others star equal
        exact notClosing (others ++ tail) star (by rw [equal]; rfl)

theorem commentLength_append {depth : Nat} {body : List Char} {length : Nat}
    (closed : commentLength depth body = some length) (rest : List Char) :
    commentLength depth (body ++ rest) = some length := by
  fun_induction commentLength depth body generalizing length with
  | case1 => cases closed
  | case3 => exact closed
  | case2 depth others induction | case4 others depth induction =>
      rcases Option.map_eq_some_iff.mp closed with ⟨inner, found, rfl⟩
      rw [List.cons_append, List.cons_append, commentLength, induction found]
      rfl
  | case5 depth c others notOpening notClosing induction =>
      rcases Option.map_eq_some_iff.mp closed with ⟨inner, found, rfl⟩
      have nonempty : others ≠ [] := by
        intro empty
        rw [empty] at found
        cases found
      rcases List.exists_cons_of_ne_nil nonempty with ⟨next, behind, rfl⟩
      rw [List.cons_append, commentLength, induction found]
      · rfl
      · intro tail slash equal
        rw [List.cons_append] at equal
        exact notOpening behind slash (by rw [(List.cons.inj equal).1])
      · intro tail star equal
        rw [List.cons_append] at equal
        exact notClosing behind star (by rw [(List.cons.inj equal).1])

theorem commentLength_of_le {depth : Nat} {body rest : List Char} {length : Nat}
    (closed : commentLength depth (body ++ rest) = some length) (within : length ≤ body.length)
    (rest' : List Char) : commentLength depth (body ++ rest') = some length := by
  rcases exists_of_commentLength closed with ⟨front, back, equal, rfl, whole⟩
  rcases List.prefix_of_prefix_length_le ⟨back, equal.symm⟩ ⟨rest, rfl⟩ within with ⟨others, rfl⟩
  rw [List.append_assoc]
  exact commentLength_append whole _

theorem attributeLength_of_le {depth : Nat} {inString : Bool} {body rest : List Char} {length : Nat}
    (closed : attributeLength depth inString (body ++ rest) = some length)
    (within : length ≤ body.length) (rest' : List Char) :
    attributeLength depth inString (body ++ rest') = some length := by
  rcases exists_of_attributeLength closed with ⟨inner, back, equal, rfl, enclosed⟩
  have front : inner ++ [']'] <+: body ++ rest := ⟨back, by rw [equal, List.append_assoc]; rfl⟩
  rcases List.prefix_of_prefix_length_le front ⟨rest, rfl⟩ (by simpa using within) with
    ⟨others, rfl⟩
  rw [List.append_assoc, List.append_assoc]
  exact attributeLength_append enclosed _

theorem attributeLength_append_of_closed {depth : Nat} {inString : Bool} {body : List Char}
    {length : Nat} (closed : attributeLength depth inString body = some length) (rest : List Char) :
    attributeLength depth inString (body ++ rest) = some length := by
  rcases exists_of_attributeLength closed with ⟨inner, back, rfl, rfl, enclosed⟩
  rw [List.append_assoc]
  exact attributeLength_append enclosed _

theorem lineLength_le (text : List Char) : lineLength text ≤ text.length := by
  fun_induction lineLength text with
  | case1 => exact Nat.le_refl 0
  | case2 => exact Nat.succ_le_succ (Nat.zero_le _)
  | case3 _ _ _ induction => exact Nat.succ_le_succ induction

theorem lineLength_append {line : List Char} (within : '\n' ∉ line) (rest : List Char) :
    lineLength (line ++ rest) = line.length + lineLength rest := by
  induction line with
  | nil => rw [List.nil_append, List.length_nil, Nat.zero_add]
  | cons c others induction =>
      rw [List.mem_cons, not_or] at within
      rw [List.cons_append, lineLength, induction within.2, List.length_cons, Nat.add_right_comm]
      exact fun equal => within.1 equal.symm

theorem lineLength_of_not_mem {line : List Char} (within : '\n' ∉ line) :
    lineLength line = line.length := by
  have length := lineLength_append within []
  rwa [List.append_nil, lineLength, Nat.add_zero] at length

theorem lineLength_of_mem {body : List Char} (ends : '\n' ∈ body) (rest rest' : List Char) :
    lineLength (body ++ rest) = lineLength (body ++ rest') := by
  rcases List.eq_append_cons_of_mem ends with ⟨line, others, rfl, within⟩
  simp only [List.append_assoc, List.cons_append, lineLength_append within, lineLength]

/-! ## What a lexeme can be -/

/-- The ways in which a lexeme of some kind begins with a character and takes up some of the
characters behind it. -/
inductive Found : (c : Char) → (rest : List Char) → LexemeKind → (count : Nat) → Prop
  | blank {c : Char} (rest : List Char) (blank : Text.isBlank c = true) :
      Found c rest .blank (rest.takeWhile Text.isBlank).length
  | lineComment (tail : List Char) : Found '/' ('/' :: tail) .lineComment (1 + lineLength tail)
  | blockComment {tail : List Char} {length : Nat} (closed : commentLength 0 tail = some length) :
      Found '/' ('*' :: tail) .blockComment (1 + length)
  | outerAttribute {tail : List Char} {length : Nat}
      (closed : attributeLength 0 false tail = some length) :
      Found '#' ('[' :: tail) (.token .attribute) (1 + length)
  | innerAttribute {tail : List Char} {length : Nat}
      (closed : attributeLength 0 false tail = some length) :
      Found '#' ('!' :: '[' :: tail) (.token .innerAttribute) (2 + length)
  | pathSeparator (tail : List Char) : Found ':' (':' :: tail) (.token .pathSeparator) 1
  | identifier {c : Char} {rest : List Char} {count : Nat}
      (following : Identifier.following c rest = some count) :
      Found c rest (.token .identifier) count
  | mark (c : Char) (rest : List Char) : Found c rest (.token (punctuation c)) 0

/-! What comments and attributes take up. -/

theorem lineComment_take (tail : List Char) :
    (∃ line, '\n' ∉ line ∧
      '/' :: ('/' :: tail).take (1 + lineLength tail) = '/' :: '/' :: (line ++ ['\n'])) ∨
      '\n' ∉ tail ∧ lineLength tail = tail.length := by
  by_cases ends : '\n' ∈ tail
  · rcases List.eq_append_cons_of_mem ends with ⟨line, others, rfl, within⟩
    refine .inl ⟨line, within, ?_⟩
    rw [lineLength_append within, lineLength, Nat.add_comm 1, List.take_succ_cons,
      List.take_length_add_append]
    rfl
  · exact .inr ⟨ends, lineLength_of_not_mem ends⟩

theorem blockComment_take {tail : List Char} {length : Nat}
    (closed : commentLength 0 tail = some length) :
    ∃ body, commentLength 0 body = some body.length ∧
      '/' :: ('*' :: tail).take (1 + length) = '/' :: '*' :: body := by
  rcases exists_of_commentLength closed with ⟨body, others, rfl, rfl, whole⟩
  refine ⟨body, whole, ?_⟩
  rw [Nat.add_comm 1, List.take_succ_cons, List.take_left]

theorem outerAttribute_take {tail : List Char} {length : Nat}
    (closed : attributeLength 0 false tail = some length) :
    ∃ body, Encloses 0 false body ∧
      '#' :: ('[' :: tail).take (1 + length) = '#' :: '[' :: (body ++ [']']) := by
  rcases exists_of_attributeLength closed with ⟨body, others, rfl, rfl, enclosed⟩
  refine ⟨body, enclosed, ?_⟩
  rw [Nat.add_comm 1, List.take_succ_cons, List.take_length_add_append]
  rfl

theorem innerAttribute_take {tail : List Char} {length : Nat}
    (closed : attributeLength 0 false tail = some length) :
    ∃ body, Encloses 0 false body ∧
      '#' :: ('!' :: '[' :: tail).take (2 + length) = '#' :: '!' :: '[' :: (body ++ [']']) := by
  rcases exists_of_attributeLength closed with ⟨body, others, rfl, rfl, enclosed⟩
  refine ⟨body, enclosed, ?_⟩
  rw [Nat.add_comm 2, List.take_succ_cons, List.take_succ_cons, List.take_length_add_append]
  rfl

theorem next_lineComment (tail : List Char) :
    next '/' ('/' :: tail) = .ok (.lineComment, 1 + lineLength tail) := rfl

theorem next_blockComment {tail : List Char} {length : Nat}
    (closed : commentLength 0 tail = some length) :
    next '/' ('*' :: tail) = .ok (.blockComment, 1 + length) := by
  have begun : next '/' ('*' :: tail) =
      Lexeme.closed .openComment .blockComment 1 (commentLength 0 tail) := rfl
  rw [begun, closed]
  rfl

theorem next_outerAttribute {tail : List Char} {length : Nat}
    (closed : attributeLength 0 false tail = some length) :
    next '#' ('[' :: tail) = .ok (.token .attribute, 1 + length) := by
  have begun : next '#' ('[' :: tail) =
      Lexeme.closed .openAttribute (.token .attribute) 1 (attributeLength 0 false tail) := rfl
  rw [begun, closed]
  rfl

theorem next_innerAttribute {tail : List Char} {length : Nat}
    (closed : attributeLength 0 false tail = some length) :
    next '#' ('!' :: '[' :: tail) = .ok (.token .innerAttribute, 2 + length) := by
  have begun : next '#' ('!' :: '[' :: tail) =
      Lexeme.closed .openAttribute (.token .innerAttribute) 2 (attributeLength 0 false tail) := rfl
  rw [begun, closed]
  rfl

theorem of_closed_eq_ok {fault : LexicalFault} {kind kind' : LexemeKind} {before count : Nat}
    {length : Option Nat} (found : closed fault kind before length = .ok (kind', count)) :
    ∃ inner, length = some inner ∧ kind' = kind ∧ count = before + inner := by
  cases length with
  | none => cases found
  | some inner =>
      cases found
      exact ⟨inner, rfl, rfl, rfl⟩

theorem closed_of_same {fault : LexicalFault} {kind kind' : LexemeKind} {before count : Nat}
    {length length' : Option Nat} (found : closed fault kind' before length = .ok (kind, count))
    (same : ∀ inner, length = some inner → count = before + inner → length' = some inner) :
    closed fault kind' before length' = .ok (kind, count) := by
  rcases of_closed_eq_ok found with ⟨inner, equal, rfl, rfl⟩
  rw [same inner equal rfl]
  rfl

theorem found_of_next {c : Char} {rest : List Char} {kind : LexemeKind} {count : Nat}
    (next : next c rest = .ok (kind, count)) : Found c rest kind count := by
  unfold Lexeme.next at next
  split at next
  · next blank =>
      cases next
      exact .blank rest blank
  · split at next
    · next slash =>
        subst slash
        unfold afterSlash at next
        split at next
        · cases next
          exact .lineComment _
        · rcases of_closed_eq_ok next with ⟨_, closed, rfl, rfl⟩
          exact .blockComment closed
        · cases next
          exact .mark '/' _
    · split at next
      · next sign =>
          subst sign
          unfold afterSign at next
          split at next
          · rcases of_closed_eq_ok next with ⟨_, closed, rfl, rfl⟩
            exact .outerAttribute closed
          · rcases of_closed_eq_ok next with ⟨_, closed, rfl, rfl⟩
            exact .innerAttribute closed
          · cases next
            exact .mark '#' _
      · split at next
        · next colon =>
            subst colon
            unfold afterColon at next
            split at next
            · cases next
              exact .pathSeparator _
            · cases next
              exact .mark ':' _
        · split at next
          · next following =>
              cases next
              exact .identifier following
          · cases next
            exact .mark c rest

theorem Found.count_le {c : Char} {rest : List Char} {kind : LexemeKind} {count : Nat}
    (found : Found c rest kind count) : count ≤ rest.length := by
  cases found with
  | blank => exact (List.takeWhile_prefix _).length_le
  | lineComment tail =>
      have within := lineLength_le tail
      rw [List.length_cons]
      omega
  | blockComment closed =>
      rcases exists_of_commentLength closed with ⟨body, behind, rfl, rfl, _⟩
      simp only [List.length_cons, List.length_append]
      omega
  | outerAttribute closed | innerAttribute closed =>
      rcases exists_of_attributeLength closed with ⟨body, behind, rfl, rfl, _⟩
      simp only [List.length_cons, List.length_append]
      omega
  | pathSeparator => exact Nat.succ_le_succ (Nat.zero_le _)
  | identifier following => exact (Identifier.isWord_take following).1
  | mark => exact Nat.zero_le _

theorem punctuation_ne (c : Char) :
    punctuation c ≠ .attribute ∧ punctuation c ≠ .identifier := by
  unfold punctuation
  split <;> exact ⟨by decide, by decide⟩

theorem afterColon_append {c : Char} (other : c ≠ ':') (body rest : List Char) :
    afterColon (body ++ c :: rest) = afterColon body := by
  cases body with
  | nil => simp [afterColon, other]
  | cons first others =>
      by_cases colon : first = ':'
      · subst colon
        rfl
      · simp [afterColon, colon]

/-! ## In front of a semicolon or an attribute -/

/-- A text that begins a lexeme of its own wherever it stands, unless a comment or an attribute is open
there. -/
inductive IsBarrier : List Char → Prop
  | semicolon (tail : List Char) : IsBarrier (';' :: tail)
  | outerAttribute (tail : List Char) : IsBarrier ('#' :: '[' :: tail)

theorem IsBarrier.exists_eq_cons {text : List Char} (barrier : IsBarrier text) :
    ∃ mark tail, text = mark :: tail ∧ Text.isBlank mark = false ∧ mark ≠ '/' ∧ mark ≠ '*' ∧
      mark ≠ '[' ∧ mark ≠ '!' ∧ mark ≠ ':' := by
  cases barrier <;> exact ⟨_, _, rfl, by decide⟩

theorem IsBarrier.following_append {text : List Char} (barrier : IsBarrier text) (c : Char)
    (rest : List Char) : Identifier.following c (rest ++ text) = Identifier.following c rest := by
  cases barrier with
  | semicolon tail => exact Identifier.following_append (Identifier.ends_cons (by decide) tail) c rest
  | outerAttribute tail =>
      have noStart : Identifier.starts '[' = false ∧ Identifier.starts '#' = false := by decide
      have stopped : ('#' :: '[' :: tail).takeWhile Identifier.continues = [] := by
        simp [Identifier.continues_number_sign]
      have same : Identifier.IsRaw c (rest ++ '#' :: '[' :: tail) ↔ Identifier.IsRaw c rest := by
        rcases rest with _ | ⟨sign, _ | ⟨next, rest⟩⟩ <;> simp [Identifier.IsRaw, noStart]
      by_cases raw : Identifier.IsRaw c rest
      · rcases raw with ⟨first, others, rfl, rfl, start⟩
        rw [List.cons_append, List.cons_append, Identifier.following_of_starts start,
          Identifier.following_of_starts start, takeWhile_append_of_stopped stopped]
      · rw [Identifier.following_of_not_isRaw raw,
          Identifier.following_of_not_isRaw fun raw' => raw (same.mp raw'),
          takeWhile_append_of_stopped stopped]

section BeforeBarrier

variable {c : Char} {body tail tail' : List Char} {kind : LexemeKind} {count : Nat}
variable (barrier : IsBarrier tail) (barrier' : IsBarrier tail')

include barrier barrier'

theorem afterSlash_of_barrier (found : afterSlash (body ++ tail) = .ok (kind, count))
    (within : count ≤ body.length) : afterSlash (body ++ tail') = .ok (kind, count) := by
  rcases barrier.exists_eq_cons with ⟨mark, others, rfl, _, noSlash, noStar, _⟩
  rcases barrier'.exists_eq_cons with ⟨mark', others', rfl, _, noSlash', noStar', _⟩
  cases body with
  | nil => simp_all [afterSlash]
  | cons first body =>
      rw [List.length_cons, Nat.add_comm] at within
      rw [List.cons_append] at found ⊢
      by_cases slash : first = '/'
      · subst slash
        cases found
        have ends : '\n' ∈ body := by
          apply Classical.byContradiction
          intro endless
          rw [lineLength_append endless] at within
          have goesOn : 0 < lineLength (mark :: others) := by
            by_cases feed : mark = '\n' <;> simp [lineLength, feed]
          omega
        rw [afterSlash, lineLength_of_mem ends]
      · by_cases star : first = '*'
        · subst star
          exact closed_of_same found fun _ closed total =>
            commentLength_of_le closed (by omega) _
        · simp_all [afterSlash]

theorem afterSign_of_barrier (found : afterSign (body ++ tail) = .ok (kind, count))
    (within : count ≤ body.length) : afterSign (body ++ tail') = .ok (kind, count) := by
  rcases barrier.exists_eq_cons with ⟨mark, others, rfl, _, _, _, noOpening, noInner, _⟩
  rcases barrier'.exists_eq_cons with ⟨mark', others', rfl, _, _, _, noOpening', noInner', _⟩
  cases body with
  | nil => simp_all [afterSign]
  | cons first body =>
      rw [List.length_cons, Nat.add_comm] at within
      rw [List.cons_append] at found ⊢
      by_cases opening : first = '['
      · subst opening
        exact closed_of_same found fun _ closed total =>
          attributeLength_of_le closed (by omega) _
      · cases body with
        | nil => simp_all [afterSign]
        | cons next body =>
            rw [List.cons_append] at found ⊢
            by_cases inner : first = '!' ∧ next = '['
            · rcases inner with ⟨rfl, rfl⟩
              rw [List.length_cons, Nat.add_comm body.length, ← Nat.add_assoc] at within
              exact closed_of_same found fun _ closed total =>
                attributeLength_of_le closed (by omega) _
            · simp_all [afterSign]

/-- A lexeme that ends in front of a barrier is found there whatever stands behind the barrier. -/
theorem next_of_barrier (found : next c (body ++ tail) = .ok (kind, count))
    (within : count ≤ body.length) : next c (body ++ tail') = .ok (kind, count) := by
  have blanks : ∀ {text : List Char}, IsBarrier text →
      (body ++ text).takeWhile Text.isBlank = body.takeWhile Text.isBlank := by
    intro text barrier
    rcases barrier.exists_eq_cons with ⟨mark, others, rfl, noBlank, _⟩
    exact takeWhile_append_of_stopped (by simp [noBlank]) body
  have colon : ∀ {text : List Char}, IsBarrier text → afterColon (body ++ text) = afterColon body := by
    intro text barrier
    rcases barrier.exists_eq_cons with ⟨mark, others, rfl, _, _, _, _, _, noColon⟩
    exact afterColon_append noColon body others
  unfold next at found ⊢
  split at found
  · next blank =>
      rw [if_pos blank, ← found, blanks barrier, blanks barrier']
  · next visible =>
      rw [if_neg visible]
      split at found
      · next slash =>
          rw [if_pos slash]
          exact afterSlash_of_barrier barrier barrier' found within
      · next noSlash =>
          rw [if_neg noSlash]
          split at found
          · next sign =>
              rw [if_pos sign]
              exact afterSign_of_barrier barrier barrier' found within
          · next noSign =>
              rw [colon barrier, barrier.following_append] at found
              rw [if_neg noSign, colon barrier', barrier'.following_append]
              exact found

end BeforeBarrier

/-! ## In front of a line feed -/

section BeforeLineFeed

variable {c : Char} {body : List Char} {kind : LexemeKind} {count : Nat}

theorem afterSlash_of_line_feed (found : afterSlash body = .ok (kind, count))
    (ended : kind = .lineComment → '\n' ∈ body) (rest : List Char) :
    afterSlash (body ++ '\n' :: rest) = .ok (kind, count) := by
  cases body with
  | nil => exact found
  | cons first others =>
      by_cases slash : first = '/'
      · subst slash
        cases found
        have ends : '\n' ∈ others := (List.mem_cons.mp (ended rfl)).resolve_left (by decide)
        rw [List.cons_append, afterSlash, lineLength_of_mem ends _ [], List.append_nil]
      · by_cases star : first = '*'
        · subst star
          exact closed_of_same found fun _ closed _ => commentLength_append closed _
        · simp_all [afterSlash]

theorem afterSign_of_line_feed (found : afterSign body = .ok (kind, count)) (rest : List Char) :
    afterSign (body ++ '\n' :: rest) = .ok (kind, count) := by
  rcases body with _ | ⟨first, others⟩
  · exact found
  · by_cases opening : first = '['
    · subst opening
      exact closed_of_same found fun _ closed _ => attributeLength_append_of_closed closed _
    · rcases others with _ | ⟨next, others⟩
      · simp_all [afterSign]
      · by_cases inner : first = '!' ∧ next = '['
        · rcases inner with ⟨rfl, rfl⟩
          exact closed_of_same found fun _ closed _ => attributeLength_append_of_closed closed _
        · simp_all [afterSign]

theorem next_of_line_feed (found : next c body = .ok (kind, count))
    (visible : Text.isBlank c = false) (ended : kind = .lineComment → '\n' ∈ body)
    (rest : List Char) : next c (body ++ '\n' :: rest) = .ok (kind, count) := by
  have ends : Identifier.Ends ('\n' :: rest) := Identifier.ends_cons (by decide) rest
  unfold next at found ⊢
  rw [if_neg (by simp [visible])] at found ⊢
  split at found
  · next slash =>
      rw [if_pos slash]
      exact afterSlash_of_line_feed found ended rest
  · next noSlash =>
      rw [if_neg noSlash]
      split at found
      · next sign =>
          rw [if_pos sign]
          exact afterSign_of_line_feed found rest
      · next noSign =>
          rw [if_neg noSign, afterColon_append (by decide), Identifier.following_append ends]
          exact found

end BeforeLineFeed

end ImportBlock.Lexeme
