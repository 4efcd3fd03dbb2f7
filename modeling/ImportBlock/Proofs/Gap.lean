import ImportBlock.Proofs.BlockComment
import ImportBlock.Proofs.TokenOrder
import Mathlib

/-! What stands between tokens. A text is made of tokens, each as it is written, and of gaps, which hold
blanks and comments and nothing else. Only a comment or an attribute without an end breaks this off. -/

namespace ImportBlock

/-- Whether a token is read from a stretch of a text. An attribute is read as what its brackets enclose,
with the blanks collapsed. -/
def Token.IsWritten (token : Token) (source : List Char) : Prop :=
  match token.kind with
  | .attribute => ∃ body, Lexeme.Encloses 0 false body ∧ source = '#' :: '[' :: (body ++ [']']) ∧
      token.text = String.ofList (Text.collapse body)
  | .innerAttribute => ∃ body, Lexeme.Encloses 0 false body ∧
      source = '#' :: '!' :: '[' :: (body ++ [']']) ∧ token.text = String.ofList (Text.collapse body)
  | _ => token.text = String.ofList source

namespace Lexeme

theorem Found.isWritten {c : Char} {rest : List Char} {kind : TokenKind} {count : Nat}
    (found : Found c rest (.token kind) count) (start stop : Nat) :
    Token.IsWritten ⟨kind, String.ofList (text ⟨.token kind, c :: rest.take count⟩), start, stop⟩
      (c :: rest.take count) := by
  cases found with
  | outerAttribute closed =>
      rcases outerAttribute_take closed with ⟨body, enclosed, source⟩
      exact ⟨body, enclosed, source, by simp [source, text]⟩
  | innerAttribute closed =>
      rcases innerAttribute_take closed with ⟨body, enclosed, source⟩
      exact ⟨body, enclosed, source, by simp [source, text]⟩
  | mark =>
      unfold punctuation
      split <;> rfl
  | _ => rfl

end Lexeme

namespace Text

/-! ## Gaps -/

/-- Whether a text holds blanks and comments only. A line comment goes on to its line feed, or to the
end of the text that the gap stands in; `behind` is what follows there. -/
inductive IsGap (behind : List Char) : List Char → Prop
  | nil : IsGap behind []
  | blank {c : Char} {rest : List Char} (blank : isBlank c = true) (more : IsGap behind rest) :
      IsGap behind (c :: rest)
  | lineComment {line rest : List Char} (within : '\n' ∉ line) (more : IsGap behind rest) :
      IsGap behind ('/' :: '/' :: (line ++ '\n' :: rest))
  | lastComment {line : List Char} (within : '\n' ∉ line) (ends : behind = []) :
      IsGap behind ('/' :: '/' :: line)
  | blockComment {comment rest : List Char} (isComment : Lexeme.IsBlockComment comment)
      (more : IsGap behind rest) : IsGap behind (comment ++ rest)

theorem IsGap.blanks {behind blanks rest : List Char} (blank : ∀ c ∈ blanks, isBlank c = true)
    (more : IsGap behind rest) : IsGap behind (blanks ++ rest) := by
  induction blanks with
  | nil => exact more
  | cons c others induction =>
      have parts := List.forall_mem_cons.mp blank
      exact .blank parts.1 (induction parts.2)

theorem IsGap.of_found {c : Char} {rest gap behind : List Char} {kind : LexemeKind} {count : Nat}
    (found : Lexeme.Found c rest kind count) (passed : ∀ token, kind ≠ .token token)
    (split : rest.drop count = gap ++ behind) (more : IsGap behind gap) :
    IsGap behind (c :: rest.take count ++ gap) := by
  cases found with
  | blank _ blank =>
      rw [← List.prefix_iff_eq_take.mp (List.takeWhile_prefix isBlank), List.cons_append]
      exact .blank blank (.blanks (fun _ member => List.mem_takeWhile_imp member) more)
  | lineComment tail =>
      rcases Lexeme.lineComment_take tail with ⟨line, within, source⟩ | ⟨endless, length⟩
      · rw [source, List.cons_append, List.cons_append, List.append_assoc]
        exact .lineComment within more
      · rw [length, Nat.add_comm 1, List.drop_succ_cons, List.drop_length] at split
        rcases List.append_eq_nil_iff.mp split.symm with ⟨rfl, rfl⟩
        rw [length, Nat.add_comm 1, List.take_succ_cons, List.take_length, List.append_nil]
        exact .lastComment endless rfl
  | blockComment closed =>
      rcases Lexeme.blockComment_take closed with ⟨body, whole, source⟩
      rw [source]
      exact .blockComment (Lexeme.isBlockComment_iff.mpr whole) more
  | _ => exact absurd rfl (passed _)

/-! ## Gaps and tokens -/

/-- Whether a text is made of gaps and tokens that take turns, and of a rest that is neither. The text
stands behind `start` characters. -/
inductive Alternates (remaining : List Char) : (start : Nat) → List Char → List Token → Prop
  | ends {start : Nat} {gap : List Char} (isGap : IsGap remaining gap) :
      Alternates remaining start (gap ++ remaining) []
  | token {start : Nat} {gap source rest : List Char} {token : Token} {tokens : List Token}
      (isGap : IsGap (source ++ rest) gap) (nonempty : source ≠ [])
      (starts : token.start = start + gap.length) (stops : token.stop = token.start + source.length)
      (written : token.IsWritten source) (behind : Alternates remaining token.stop rest tokens) :
      Alternates remaining start (gap ++ (source ++ rest)) (token :: tokens)

/-- Whether cutting a text into lexemes gets to the place in front of its part `remaining`. -/
inductive Reaches : (text remaining : List Char) → Prop
  | here (text : List Char) : Reaches text text
  | on {c : Char} {rest remaining : List Char} {kind : LexemeKind} {count : Nat}
      (found : Lexeme.next c rest = .ok (kind, count)) (behind : Reaches (rest.drop count) remaining) :
      Reaches (c :: rest) remaining

/-- Whether a text begins a comment or an attribute that nothing in it closes. -/
inductive IsUnclosed : LexicalFault → List Char → Prop
  | comment {tail : List Char}
      (endless : ∀ comment rest, Lexeme.IsBlockComment comment →
        '/' :: '*' :: tail ≠ comment ++ rest) :
      IsUnclosed .openComment ('/' :: '*' :: tail)
  | outerAttribute {tail : List Char}
      (endless : ∀ body rest, Lexeme.Encloses 0 false body → tail ≠ body ++ ']' :: rest) :
      IsUnclosed .openAttribute ('#' :: '[' :: tail)
  | innerAttribute {tail : List Char}
      (endless : ∀ body rest, Lexeme.Encloses 0 false body → tail ≠ body ++ ']' :: rest) :
      IsUnclosed .openAttribute ('#' :: '!' :: '[' :: tail)

theorem attributeLength_eq_none_iff {tail : List Char} :
    Lexeme.attributeLength 0 false tail = none ↔
      ∀ body rest, Lexeme.Encloses 0 false body → tail ≠ body ++ ']' :: rest := by
  constructor
  · rintro endless body rest enclosed rfl
    rw [Lexeme.attributeLength_append enclosed rest] at endless
    cases endless
  · intro none
    cases found : Lexeme.attributeLength 0 false tail with
    | none => rfl
    | some length =>
        rcases Lexeme.exists_of_attributeLength found with ⟨body, rest, equal, _, enclosed⟩
        exact absurd equal (none body rest enclosed)

theorem isUnclosed_of_isOpen {fault : LexicalFault} {text : List Char}
    (isOpen : Lexeme.IsOpen fault text) : IsUnclosed fault text := by
  cases isOpen with
  | comment endless => exact .comment (Lexeme.commentLength_eq_none_iff.mp endless)
  | outerAttribute endless => exact .outerAttribute (attributeLength_eq_none_iff.mp endless)
  | innerAttribute endless => exact .innerAttribute (attributeLength_eq_none_iff.mp endless)

theorem IsUnclosed.next {fault : LexicalFault} {text : List Char}
    (unclosed : IsUnclosed fault text) :
    ∃ c rest, text = c :: rest ∧ Lexeme.next c rest = .error fault := by
  cases unclosed with
  | @comment tail endless =>
      have begun : Lexeme.next '/' ('*' :: tail) =
        Lexeme.closed .openComment .blockComment 1 (Lexeme.commentLength 0 tail) := rfl
      rw [Lexeme.commentLength_eq_none_iff.mpr endless] at begun
      exact ⟨_, _, rfl, begun⟩
  | @outerAttribute tail endless =>
      have begun : Lexeme.next '#' ('[' :: tail) = Lexeme.closed .openAttribute (.token .attribute) 1
        (Lexeme.attributeLength 0 false tail) := rfl
      rw [attributeLength_eq_none_iff.mpr endless] at begun
      exact ⟨_, _, rfl, begun⟩
  | @innerAttribute tail endless =>
      have begun : Lexeme.next '#' ('!' :: '[' :: tail) = Lexeme.closed .openAttribute
        (.token .innerAttribute) 2 (Lexeme.attributeLength 0 false tail) := rfl
      rw [attributeLength_eq_none_iff.mpr endless] at begun
      exact ⟨_, _, rfl, begun⟩

theorem Alternates.skip {remaining piece text : List Char} {start : Nat} {tokens : List Token}
    (alternates : Alternates remaining (start + piece.length) text tokens)
    (joins : ∀ gap behind, text = gap ++ behind → IsGap behind gap → IsGap behind (piece ++ gap)) :
    Alternates remaining start (piece ++ text) tokens := by
  cases alternates with
  | ends isGap =>
      rw [← List.append_assoc]
      exact .ends (joins _ _ rfl isGap)
  | token isGap nonempty starts stops written behind =>
      rw [← List.append_assoc]
      refine .token (joins _ _ rfl isGap) nonempty ?_ stops written behind
      rw [starts, List.length_append, Nat.add_assoc]

/-- Up to its first fault, a text is made of gaps and its tokens. -/
theorem exists_alternates (text : List Char) : ∀ start, ∃ remaining,
    Alternates remaining start text (tokens start text) ∧ Reaches text remaining ∧
      (fault? text = none ∧ remaining = [] ∨
        ∃ fault, fault? text = some fault ∧ IsUnclosed fault remaining) := by
  induction text using Lexeme.scan.induct with
  | case1 =>
      intro start
      rw [tokens_nil]
      exact ⟨[], .ends .nil, .here [], .inl ⟨fault?_nil, rfl⟩⟩
  | case2 c rest fault failed =>
      intro start
      rw [tokens_of_error failed]
      refine ⟨c :: rest, .ends .nil, .here _, .inr ⟨fault, ?_, ?_⟩⟩
      · rw [fault?, Lexeme.scan, failed]
      · exact isUnclosed_of_isOpen (Lexeme.isOpen_of_next failed)
  | case3 c rest kind count found induction =>
      intro start
      rcases induction (start + (c :: rest.take count).length) with
        ⟨remaining, alternates, reaches, ends⟩
      rw [← fault?_cons found] at ends
      refine ⟨remaining, ?_, .on found reaches, ends⟩
      rw [tokens_cons found]
      have read := Lexeme.found_of_next found
      cases kind with
      | token kind =>
          have whole := @Alternates.token remaining start [] _ _ _ _ .nil
            (List.cons_ne_nil c (rest.take count)) rfl rfl (read.isWritten start _) alternates
          rwa [List.nil_append, cons_take_append_drop] at whole
      | _ =>
          have whole := alternates.skip fun gap behind split more =>
            IsGap.of_found read (fun token equal => by cases equal) split more
          rwa [cons_take_append_drop] at whole

theorem Reaches.suffix {text remaining : List Char} (reaches : Reaches text remaining) :
    remaining <:+ text := by
  induction reaches with
  | here => exact List.suffix_rfl
  | on _ _ induction => exact (induction.trans (List.drop_suffix _ _)).trans (List.suffix_cons _ _)

theorem covered_cons {c : Char} {rest : List Char} {kind : LexemeKind} {count : Nat}
    (found : Lexeme.next c rest = .ok (kind, count)) :
    covered (c :: rest) = (c :: rest.take count).length + covered (rest.drop count) := by
  rw [covered, Lexeme.scan, found]
  exact List.length_append

theorem Reaches.stops {text remaining : List Char} {fault : LexicalFault}
    (reaches : Reaches text remaining) (unclosed : IsUnclosed fault remaining) :
    fault? text = some fault ∧ covered text + remaining.length = text.length := by
  induction reaches with
  | here text =>
      rcases unclosed.next with ⟨c, rest, rfl, failed⟩
      constructor
      · rw [fault?, Lexeme.scan, failed]
      · rw [covered, Lexeme.scan, failed]
        exact Nat.zero_add _
  | @on c rest remaining kind count found _ induction =>
      have stops := induction unclosed
      have length := congrArg List.length (cons_take_append_drop c rest count)
      rw [fault?_cons found, covered_cons found, Nat.add_assoc, stops.2, ← List.length_append]
      exact ⟨stops.1, length⟩

/-! ## Places -/

def stopOf (start : Nat) (tokens : List Token) : Nat := (tokens.getLast?.map (·.stop)).getD start

def startOf (stop : Nat) (tokens : List Token) : Nat := (tokens.head?.map (·.start)).getD stop

theorem stopOf_cons (start : Nat) (token : Token) (tokens : List Token) :
    stopOf start (token :: tokens) = stopOf token.stop tokens := by
  rw [stopOf, List.getLast?_cons, stopOf]
  cases tokens.getLast? <;> rfl

section Places

variable {remaining text : List Char} {start : Nat} {tokens : List Token}

theorem Alternates.bounds (alternates : Alternates remaining start text tokens) :
    (∀ token ∈ tokens, start ≤ token.start ∧ token.start < token.stop ∧
      token.stop ≤ start + text.length) ∧
    tokens.Pairwise fun left right => left.stop ≤ right.start := by
  induction alternates with
  | ends => exact ⟨nofun, .nil⟩
  | @token start gap source rest token tokens _ nonempty starts stops _ _ induction =>
      rcases induction with ⟨within, ordered⟩
      have positive := List.length_pos_of_ne_nil nonempty
      refine ⟨?_, List.pairwise_cons.mpr ⟨fun other member => (within other member).1, ordered⟩⟩
      intro other member
      rw [List.length_append, List.length_append]
      rcases List.mem_cons.mp member with rfl | inside
      · omega
      · have bounds := within other inside
        omega

theorem Alternates.exists_source (alternates : Alternates remaining start text tokens) :
    ∀ token ∈ tokens, ∃ before source behind, text = before ++ (source ++ behind) ∧
      token.start = start + before.length ∧ token.stop = token.start + source.length ∧
        token.IsWritten source := by
  induction alternates with
  | ends => exact nofun
  | @token start gap source rest first tokens _ _ starts stops written _ induction =>
      intro token member
      rcases List.mem_cons.mp member with rfl | inside
      · exact ⟨gap, source, rest, rfl, starts, stops, written⟩
      · rcases induction token inside with ⟨before, inner, behind, rfl, starts', stops', written'⟩
        refine ⟨gap ++ (source ++ before), inner, behind, by simp, ?_, stops', written'⟩
        simp only [List.length_append]
        omega

/-- A gap reaches from one token to the next, from the start of the text, or to its end. -/
theorem Alternates.exists_gap (alternates : Alternates remaining start text tokens) :
    ∀ {stop : Nat}, start + text.length = stop + remaining.length →
      ∀ front back, tokens = front ++ back → ∃ before gap behind,
        text = before ++ (gap ++ behind) ∧ start + before.length = stopOf start front ∧
          start + before.length + gap.length = startOf stop back ∧ IsGap behind gap := by
  induction alternates with
  | @ends start gap isGap =>
      intro stop length front back split
      rcases List.append_eq_nil_iff.mp split.symm with ⟨rfl, rfl⟩
      refine ⟨[], gap, remaining, rfl, rfl, ?_, isGap⟩
      rw [List.length_append, ← Nat.add_assoc] at length
      exact Nat.add_right_cancel length
  | @token start gap source rest first tokens isGap nonempty starts stops written behind induction =>
      intro stop length front back split
      cases front with
      | nil =>
          rw [List.nil_append] at split
          subst split
          exact ⟨[], gap, source ++ rest, rfl, rfl, starts.symm, isGap⟩
      | cons token front =>
          rcases List.cons.inj split with ⟨rfl, others⟩
          have length' : first.stop + rest.length = stop + remaining.length := by
            rw [← length, List.length_append, List.length_append]
            omega
          rcases induction length' front back others with
            ⟨before, inner, last, rfl, reach, reach', isGap'⟩
          have moved : start + (gap ++ (source ++ before)).length = first.stop + before.length := by
            simp only [List.length_append]
            omega
          refine ⟨gap ++ (source ++ before), inner, last, by simp, ?_, ?_, isGap'⟩
          · rw [moved, reach, stopOf_cons]
          · rw [moved, reach']

end Places

theorem extract_middle {before middle behind : List Char} {start stop : Nat}
    (starts : start = before.length) (stops : stop = start + middle.length) :
    (before ++ (middle ++ behind)).extract start stop = middle := by
  rw [List.extract_eq_take_drop, starts, List.drop_left, stops, starts, Nat.add_sub_cancel_left,
    List.take_left]

theorem isGap_between {text : List Char} {front back : List Token} {left right : Token}
    (given : tokens 0 text = front ++ left :: right :: back) :
    IsGap (text.drop right.start) (text.extract left.stop right.start) := by
  rcases exists_alternates text 0 with ⟨remaining, alternates, reaches, _⟩
  have length : 0 + text.length = text.length - remaining.length + remaining.length := by
    have within := reaches.suffix.length_le
    omega
  have split : tokens 0 text = (front ++ [left]) ++ right :: back := by rw [given]; simp
  rcases alternates.exists_gap length _ _ split with ⟨before, gap, behind, equal, reach, reach', isGap⟩
  have stops : left.stop = before.length := by
    rw [← Nat.zero_add before.length, reach]
    simp [stopOf]
  have starts : right.start = left.stop + gap.length := by
    rw [stops, ← Nat.zero_add before.length, reach']
    rfl
  rw [starts, stops, equal, extract_middle rfl rfl, ← List.append_assoc, ← List.length_append,
    List.drop_left]
  exact isGap

/-! ## What tokens hold -/

/-- Whether some tokens hold all of a text but for blanks and comments. -/
structure IsHeldBy (text : List Char) (tokens : List Token) : Prop where
  nonempty : ∀ token ∈ tokens, token.start < token.stop
  within : ∀ token ∈ tokens, token.stop ≤ text.length
  ordered : tokens.Pairwise fun left right => left.stop ≤ right.start
  written : ∀ token ∈ tokens, token.IsWritten (text.extract token.start token.stop)
  gaps : ∀ front back, tokens = front ++ back →
    IsGap (text.drop (startOf text.length back))
      (text.extract (stopOf 0 front) (startOf text.length back))

theorem Alternates.isHeldBy {text : List Char} {tokens : List Token}
    (alternates : Alternates [] 0 text tokens) : IsHeldBy text tokens where
  nonempty token member := (alternates.bounds.1 token member).2.1
  within token member := by
    have stops := (alternates.bounds.1 token member).2.2
    rwa [Nat.zero_add] at stops
  ordered := alternates.bounds.2
  written token member := by
    rcases alternates.exists_source token member with
      ⟨before, source, behind, rfl, starts, stops, written⟩
    rwa [extract_middle (starts.trans (Nat.zero_add _)) stops]
  gaps front back split := by
    rcases alternates.exists_gap (Nat.zero_add text.length) front back split with
      ⟨before, gap, behind, equal, reach, reach', isGap⟩
    rw [← reach', ← reach, Nat.zero_add, equal, extract_middle rfl rfl, ← List.append_assoc,
      ← List.length_append, List.drop_left]
    exact isGap

end Text

/-- The tokens of a text without a fault hold all of it but for blanks and comments. The text has a
fault exactly where cutting it comes to a comment or an attribute that nothing closes. -/
theorem TokenStream.isHeldBy_tokens (text : List Char) :
    ((ofText text).fault = none → Text.IsHeldBy text (ofText text).tokens) ∧
    ∀ fault offset, (ofText text).fault = some ⟨fault, offset⟩ ↔
      ∃ remaining, Text.Reaches text remaining ∧ Text.IsUnclosed fault remaining ∧
        offset + remaining.length = text.length := by
  have place : (ofText text).fault =
      (Text.fault? text).map fun fault => ⟨fault, Text.covered text⟩ := rfl
  rcases Text.exists_alternates text 0 with ⟨remaining, alternates, reaches, ends⟩
  constructor
  · intro readable
    rw [place, Option.map_eq_none_iff] at readable
    rcases ends with ⟨_, rfl⟩ | ⟨fault, faulty, _⟩
    · exact alternates.isHeldBy
    · rw [readable] at faulty
      cases faulty
  · intro fault offset
    rw [place]
    constructor
    · intro faulty
      rcases Option.map_eq_some_iff.mp faulty with ⟨_, found, equal⟩
      cases equal
      rcases ends with ⟨readable, _⟩ | ⟨other, found', unclosed⟩
      · rw [found] at readable
        cases readable
      · rw [found] at found'
        cases found'
        exact ⟨remaining, reaches, unclosed, (reaches.stops unclosed).2⟩
    · rintro ⟨reached, reaches', unclosed, length⟩
      rcases reaches'.stops unclosed with ⟨found, stops⟩
      rw [found, Nat.add_right_cancel (length.trans stops.symm)]
      rfl

theorem TokenStream.isHeldBy_tokens_nested_comment :
    Text.IsHeldBy "/*/* a */*/#![ b  c ]use d;// e".toList
      [⟨.innerAttribute, "b c", 11, 21⟩, ⟨.identifier, "use", 21, 24⟩, ⟨.identifier, "d", 25, 26⟩,
        ⟨.semicolon, ";", 26, 27⟩] := by
  have read : ofText "/*/* a */*/#![ b  c ]use d;// e".toList =
      ⟨[⟨.innerAttribute, "b c", 11, 21⟩, ⟨.identifier, "use", 21, 24⟩, ⟨.identifier, "d", 25, 26⟩,
        ⟨.semicolon, ";", 26, 27⟩], none, 31⟩ := by cbv
  have held := (isHeldBy_tokens "/*/* a */*/#![ b  c ]use d;// e".toList).1 (by rw [read])
  rwa [read] at held

end ImportBlock
