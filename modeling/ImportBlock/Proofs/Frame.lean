import ImportBlock.Proofs.Token

/-! The parts of a text. In front of its first token and behind a semicolon a text can be cut in two:
both parts are cut into lexemes just as the whole text is, and other texts can take their places. -/

namespace ImportBlock.Text

/-! ## One lexeme -/

section Step

variable {c : Char} {rest : List Char} {kind : LexemeKind} {count : Nat}

theorem tokens_cons (found : Lexeme.next c rest = .ok (kind, count)) (start : Nat) :
    tokens start (c :: rest) = Token.ofLexemes start [⟨kind, c :: rest.take count⟩] ++
      tokens (start + (c :: rest.take count).length) (rest.drop count) := by
  rw [tokens, Lexeme.scan, found]
  cases kind <;> rfl

theorem fault?_cons (found : Lexeme.next c rest = .ok (kind, count)) :
    fault? (c :: rest) = fault? (rest.drop count) := by
  rw [fault?, Lexeme.scan, found]
  rfl

theorem cons_take_append_drop (c : Char) (rest : List Char) (count : Nat) :
    c :: rest.take count ++ rest.drop count = c :: rest := by
  rw [List.cons_append, List.take_append_drop]

end Step

/-! ## Preambles -/

theorem spells_lineComment {line : List Char} (within : '\n' ∉ line) (rest : List Char) :
    Spells ('/' :: '/' :: (line ++ ['\n'])) [] rest := by
  have found : Lexeme.next '/' ('/' :: (line ++ ['\n']) ++ rest) =
      .ok (.lineComment, ('/' :: (line ++ ['\n'])).length) := by
    have length := Lexeme.lineLength_append within ('\n' :: rest)
    rw [List.cons_append, List.append_assoc, List.singleton_append, Lexeme.next_lineComment, length,
      Lexeme.lineLength]
    simp [Nat.add_comm]
  exact spells_lexeme found

/-- Whether a text consists of blanks, whole comments and whole inner attributes. -/
inductive IsPreamble : List Char → Prop
  | nil : IsPreamble []
  | blank {c : Char} {rest : List Char} (blank : isBlank c = true) (behind : IsPreamble rest) :
      IsPreamble (c :: rest)
  | lineComment {line rest : List Char} (within : '\n' ∉ line) (behind : IsPreamble rest) :
      IsPreamble ('/' :: '/' :: (line ++ '\n' :: rest))
  | blockComment {body rest : List Char} (closed : Lexeme.commentLength 0 body = some body.length)
      (behind : IsPreamble rest) : IsPreamble ('/' :: '*' :: (body ++ rest))
  | innerAttribute {body rest : List Char} (enclosed : Lexeme.Encloses 0 false body)
      (behind : IsPreamble rest) : IsPreamble ('#' :: '!' :: '[' :: (body ++ ']' :: rest))

theorem IsPreamble.blanks {blanks rest : List Char} (blank : ∀ c ∈ blanks, isBlank c = true)
    (behind : IsPreamble rest) : IsPreamble (blanks ++ rest) := by
  induction blanks with
  | nil => exact behind
  | cons c others induction =>
      have parts := List.forall_mem_cons.mp blank
      exact .blank parts.1 (induction parts.2)

/-- A preamble adds inner attributes only, whatever stands behind it. -/
theorem IsPreamble.exists_spells {text : List Char} (preamble : IsPreamble text)
    (behind : List Char) :
    ∃ spelled, (∀ word ∈ spelled, word.kind = .innerAttribute) ∧ Spells text spelled behind := by
  induction preamble with
  | nil => exact ⟨[], nofun, .nil behind⟩
  | blank blank _ induction =>
      rcases induction with ⟨spelled, inner, spells⟩
      exact ⟨spelled, inner, (spells_blank blank _).append spells⟩
  | @lineComment line rest within _ induction =>
      rcases induction with ⟨spelled, inner, spells⟩
      have whole := (spells_lineComment within _).append spells
      rw [List.cons_append, List.cons_append, List.append_assoc, List.singleton_append] at whole
      exact ⟨spelled, inner, whole⟩
  | @blockComment body rest closed _ induction =>
      rcases induction with ⟨spelled, inner, spells⟩
      have found : Lexeme.next '/' ('*' :: body ++ (rest ++ behind)) =
          .ok (.blockComment, ('*' :: body).length) := by
        rw [List.cons_append,
          Lexeme.next_blockComment (Lexeme.commentLength_append closed (rest ++ behind))]
        simp [Nat.add_comm]
      exact ⟨spelled, inner, (spells_lexeme found).append spells⟩
  | @innerAttribute body rest enclosed _ induction =>
      rcases induction with ⟨spelled, inner, spells⟩
      have found : Lexeme.next '#' ('!' :: '[' :: (body ++ [']']) ++ (rest ++ behind)) =
          .ok (.token .innerAttribute, ('!' :: '[' :: (body ++ [']'])).length) := by
        have length := Lexeme.attributeLength_append enclosed (rest ++ behind)
        rw [List.cons_append, List.cons_append, List.append_assoc, List.singleton_append,
          Lexeme.next_innerAttribute length, List.length_cons, List.length_cons,
          List.length_append, List.length_singleton, Nat.add_comm 2]
      have whole := (spells_lexeme found).append spells
      rw [List.cons_append, List.cons_append, List.cons_append, List.append_assoc,
        List.singleton_append] at whole
      exact ⟨_, List.forall_mem_cons.mpr ⟨rfl, inner⟩, whole⟩

theorem IsPreamble.exists_tokens {before : List Char} (preamble : IsPreamble before)
    (behind : List Char) :
    ∃ inner, tokens 0 (before ++ behind) = inner ++ tokens before.length behind ∧
      (∀ token ∈ inner, token.kind = .innerAttribute) ∧
        fault? (before ++ behind) = fault? behind := by
  rcases preamble.exists_spells behind with ⟨spelled, attributes, spells⟩
  rcases spells.tokens 0 with ⟨inner, rfl, equal⟩
  rw [Nat.zero_add] at equal
  refine ⟨inner, equal, ?_, spells.fault?⟩
  intro token member
  exact attributes token.word (List.mem_map_of_mem member)

/-- A lexeme that is no token or an inner attribute begins a preamble, if more text follows it. -/
theorem IsPreamble.of_found {c : Char} {rest front : List Char} {kind : LexemeKind} {count : Nat}
    (found : Lexeme.Found c rest kind count)
    (passed : ∀ token, kind = .token token → token = .innerAttribute)
    (more : rest.drop count ≠ []) (behind : IsPreamble front) :
    IsPreamble (c :: rest.take count ++ front) := by
  cases found with
  | blank _ blank =>
      rw [← List.prefix_iff_eq_take.mp (List.takeWhile_prefix isBlank), List.cons_append]
      exact .blank blank (.blanks (fun _ member => List.mem_takeWhile_imp member) behind)
  | lineComment tail =>
      rcases Lexeme.lineComment_take tail with ⟨line, within, source⟩ | ⟨_, length⟩
      · rw [source, List.cons_append, List.cons_append, List.append_assoc]
        exact .lineComment within behind
      · rw [length, Nat.add_comm] at more
        exact absurd (List.drop_length (l := '/' :: tail)) more
  | blockComment closed =>
      rcases Lexeme.blockComment_take closed with ⟨body, whole, source⟩
      rw [source, List.cons_append, List.cons_append]
      exact .blockComment whole behind
  | innerAttribute closed =>
      rcases Lexeme.innerAttribute_take closed with ⟨body, enclosed, source⟩
      rw [source]
      simp only [List.cons_append, List.append_assoc]
      exact .innerAttribute enclosed behind
  | mark =>
      have different := passed _ rfl
      unfold Lexeme.punctuation at different
      split at different <;> cases different
  | _ => cases passed _ rfl

/-! ## Cutting a text -/

theorem tokens_of_error {c : Char} {rest : List Char} {fault : LexicalFault}
    (failed : Lexeme.next c rest = .error fault) (start : Nat) : tokens start (c :: rest) = [] := by
  rw [tokens, Lexeme.scan, failed]
  rfl

/-- Whether a text is cut in front of a token and behind it. The tokens behind it are those of the text
there. In front of it stands a preamble if all tokens before it are inner attributes. -/
structure IsCut (start : Nat) (text : List Char) (front : List Token) (token : Token)
    (back : List Token) (before lexeme behind : List Char) : Prop where
  split : text = before ++ (lexeme ++ behind)
  starts : token.start = start + before.length
  stops : token.stop = start + (before ++ lexeme).length
  tokens : tokens token.stop behind = back
  faults : fault? behind = fault? text
  preamble : (∀ token ∈ front, token.kind = .innerAttribute) → IsPreamble before

section Cons

variable {c : Char} {rest : List Char} {kind : LexemeKind} {count : Nat}

theorem tokens_ne_of_error {fault : LexicalFault} (failed : Lexeme.next c rest = .error fault)
    {start : Nat} {front back : List Token} {token : Token} :
    tokens start (c :: rest) ≠ front ++ token :: back := by
  rw [tokens_of_error failed]
  simp

theorem drop_ne_nil_of_tokens {start : Nat} {front back : List Token} {token : Token}
    (given : tokens start (rest.drop count) = front ++ token :: back) : rest.drop count ≠ [] := by
  intro none
  rw [none, tokens_nil] at given
  simp at given

theorem IsCut.cons {start : Nat} {front front' back : List Token} {token : Token}
    {before lexeme behind : List Char} (found : Lexeme.next c rest = .ok (kind, count))
    (more : rest.drop count ≠ [])
    (cut : IsCut (start + (c :: rest.take count).length) (rest.drop count) front' token back before
      lexeme behind)
    (inner : (∀ token ∈ front, token.kind = .innerAttribute) →
      (∀ token, kind = .token token → token = .innerAttribute) ∧
        ∀ token ∈ front', token.kind = .innerAttribute) :
    IsCut start (c :: rest) front token back (c :: rest.take count ++ before) lexeme behind where
  split := by rw [List.append_assoc, ← cut.split, cons_take_append_drop]
  starts := by rw [cut.starts, List.length_append, Nat.add_assoc]
  stops := by
    rw [cut.stops, List.append_assoc, @List.length_append _ (c :: rest.take count), Nat.add_assoc]
  tokens := cut.tokens
  faults := by rw [cut.faults, fault?_cons found]
  preamble := by
    intro allInner
    have parts := inner allInner
    exact .of_found (Lexeme.found_of_next found) parts.1 more (cut.preamble parts.2)

end Cons

/-- A text can be cut at each of its tokens. -/
theorem exists_cut {text : List Char} : ∀ {start : Nat} {front back : List Token} {token : Token},
    tokens start text = front ++ token :: back →
      ∃ before lexeme behind, IsCut start text front token back before lexeme behind := by
  induction text using Lexeme.scan.induct with
  | case1 =>
      intro start front back token given
      rw [tokens_nil] at given
      simp at given
  | case2 c rest fault failed =>
      intro start front back token given
      exact absurd given (tokens_ne_of_error failed)
  | case3 c rest kind count found induction =>
      intro start front back token given
      rw [tokens_cons found] at given
      cases kind with
      | token kind =>
          cases front with
          | nil =>
              have here := List.cons.inj given
              have starts : token.start = start := by rw [← here.1]
              have stops : token.stop = start + (c :: rest.take count).length := by rw [← here.1]
              refine ⟨[], c :: rest.take count, rest.drop count, ?_, starts, stops, ?_, ?_,
                fun _ => .nil⟩
              · rw [List.nil_append, cons_take_append_drop]
              · rw [stops]
                exact here.2
              · rw [fault?_cons found]
          | cons first front =>
              have here := List.cons.inj given
              rcases induction here.2 with ⟨before, lexeme, behind, cut⟩
              refine ⟨_, _, _, cut.cons found (drop_ne_nil_of_tokens here.2) ?_⟩
              intro allInner
              have parts := List.forall_mem_cons.mp allInner
              refine ⟨?_, parts.2⟩
              intro token equal
              cases equal
              rw [← parts.1, ← here.1]
      | _ =>
          have given : tokens (start + (c :: rest.take count).length) (rest.drop count) =
              front ++ token :: back := given
          rcases induction given with ⟨before, lexeme, behind, cut⟩
          refine ⟨_, _, _, cut.cons found (drop_ne_nil_of_tokens given) fun allInner => ⟨?_, allInner⟩⟩
          intro token equal
          cases equal

/-- In front of each of its tokens a text can be cut, too: the part behind begins with the token. -/
theorem exists_cut_before {text : List Char} : ∀ {start : Nat} {front back : List Token}
    {token : Token}, tokens start text = front ++ token :: back →
      ∃ before behind, text = before ++ behind ∧ token.start = start + before.length ∧
        tokens token.start behind = token :: back := by
  induction text using Lexeme.scan.induct with
  | case1 =>
      intro start front back token given
      rw [tokens_nil] at given
      simp at given
  | case2 c rest fault failed =>
      intro start front back token given
      exact absurd given (tokens_ne_of_error failed)
  | case3 c rest kind count found induction =>
      intro start front back token given
      have pass : ∀ front', tokens (start + (c :: rest.take count).length) (rest.drop count) =
            front' ++ token :: back →
          ∃ before behind, c :: rest = before ++ behind ∧ token.start = start + before.length ∧
            tokens token.start behind = token :: back := by
        intro front' given
        rcases induction given with ⟨before, behind, split, starts, cut⟩
        refine ⟨c :: rest.take count ++ before, behind, ?_, ?_, cut⟩
        · rw [List.append_assoc, ← split, cons_take_append_drop]
        · rw [starts, List.length_append, Nat.add_assoc]
      have here := given
      rw [tokens_cons found] at given
      cases kind with
      | token kind =>
          cases front with
          | nil =>
              have starts : token.start = start := by rw [← (List.cons.inj given).1]
              exact ⟨[], c :: rest, rfl, starts, by rw [starts]; exact here⟩
          | cons first front => exact pass front (List.cons.inj given).2
      | _ => exact pass front given

/-! ## Texts that end with a semicolon -/

theorem eq_semicolon_of_punctuation {c : Char} (semicolon : Lexeme.punctuation c = .semicolon) :
    c = ';' := by
  unfold Lexeme.punctuation at semicolon
  split at semicolon <;> first | rfl | cases semicolon

theorem eq_of_semicolon {c : Char} {rest : List Char} {kind : TokenKind} {count : Nat}
    (found : Lexeme.next c rest = .ok (.token kind, count)) (semicolon : kind = .semicolon) :
    c = ';' ∧ count = 0 := by
  subst semicolon
  generalize equal : LexemeKind.token .semicolon = kind at found
  cases Lexeme.found_of_next found with
  | mark => exact ⟨eq_semicolon_of_punctuation (LexemeKind.token.inj equal).symm, rfl⟩
  | _ => cases equal

/-- The first lexeme of a text in front of a semicolon is the same whatever follows the semicolon. -/
theorem spells_cons_of_semicolon {c : Char} {rest body others : List Char} {kind : LexemeKind}
    {count : Nat} (found : Lexeme.next c rest = .ok (kind, count)) (within : count ≤ rest.length)
    (split : rest.drop count = body ++ ';' :: others) {spelled : List Word}
    (spells : ∀ tail, Spells body spelled (';' :: tail)) (tail : List Char) :
    Spells (c :: rest.take count ++ body)
      ((Lexeme.word? ⟨kind, c :: rest.take count⟩).toList ++ spelled) (';' :: tail) := by
  have taken : (rest.take count).length = count := List.length_take_of_le within
  have here : Lexeme.next c (rest.take count ++ body ++ ';' :: others) = .ok (kind, count) := by
    rw [List.append_assoc, ← split, List.take_append_drop]
    exact found
  have moved : Lexeme.next c (rest.take count ++ (body ++ ';' :: tail)) =
      .ok (kind, (rest.take count).length) := by
    rw [taken, ← List.append_assoc]
    exact Lexeme.next_of_barrier (.semicolon others) (.semicolon tail) here
      (by rw [List.length_append]; omega)
  exact (spells_lexeme moved).append (spells tail)

/-- The tokens in front of a semicolon are the same whatever follows the semicolon. -/
theorem exists_spells_of_semicolon {text : List Char} : ∀ {start : Nat} {front back : List Token}
    {last : Token}, tokens start text = front ++ last :: back → last.kind = .semicolon →
      ∃ body rest, text = body ++ ';' :: rest ∧ last.start = start + body.length ∧
        last.stop = last.start + 1 ∧
          ∀ tail, Spells body (front.map Token.word) (';' :: tail) := by
  induction text using Lexeme.scan.induct with
  | case1 =>
      intro start front back last given
      rw [tokens_nil] at given
      simp at given
  | case2 c rest fault failed =>
      intro start front back last given
      exact absurd given (tokens_ne_of_error failed)
  | case3 c rest kind count found induction =>
      intro start front back last given semicolon
      rw [tokens_cons found] at given
      -- the lexeme ends before the semicolon, which is further on
      have pass : ∀ front', tokens (start + (c :: rest.take count).length) (rest.drop count) =
            front' ++ last :: back →
          ∃ body others, c :: rest = body ++ ';' :: others ∧ last.start = start + body.length ∧
            last.stop = last.start + 1 ∧ ∀ tail, Spells body
              ((Lexeme.word? ⟨kind, c :: rest.take count⟩).toList ++ front'.map Token.word)
                (';' :: tail) := by
        intro front' given
        have within := (Lexeme.found_of_next found).count_le
        rcases induction given semicolon with ⟨body, others, split, starts, stops, spells⟩
        refine ⟨c :: rest.take count ++ body, others, ?_, ?_, stops,
          spells_cons_of_semicolon found within split spells⟩
        · rw [List.append_assoc, ← split, cons_take_append_drop]
        · rw [starts, List.length_append, Nat.add_assoc]
      cases kind with
      | token kind =>
          cases front with
          | nil =>
              have here := List.cons.inj given
              rw [← here.1] at semicolon
              rcases eq_of_semicolon found semicolon with ⟨rfl, rfl⟩
              exact ⟨[], rest, rfl, by rw [← here.1]; rfl, by rw [← here.1]; rfl, fun _ => .nil _⟩
          | cons first front =>
              have here := List.cons.inj given
              rcases pass front here.2 with ⟨body, others, split, starts, stops, spells⟩
              rw [← here.1]
              exact ⟨body, others, split, starts, stops, spells⟩
      | _ => exact pass front given

theorem le_start_of_mem_ofLexemes {lexemes : List Lexeme} {token : Token} : ∀ {start : Nat},
    token ∈ Token.ofLexemes start lexemes → start ≤ token.start := by
  induction lexemes with
  | nil => exact nofun
  | cons lexeme rest induction =>
      intro start member
      rw [Token.ofLexemes] at member
      have later : token ∈ Token.ofLexemes (start + lexeme.source.length) rest →
          start ≤ token.start := by
        intro inside
        exact Nat.le_of_add_right_le (induction inside)
      cases kind : lexeme.kind with
      | token _ =>
          rw [kind] at member
          rcases List.mem_cons.mp member with rfl | inside
          · exact Nat.le_refl start
          · exact later inside
      | _ =>
          rw [kind] at member
          exact later member

theorem visible_of_opening {c : Char} {rest : List Char} {kind : TokenKind} {count : Nat}
    (found : Lexeme.Found c rest (.token kind) count)
    (opens : kind = .attribute ∨ kind = .identifier) :
    isBlank c = false ∧ c ≠ '/' ∧ c ≠ ';' := by
  cases found with
  | outerAttribute => exact ⟨by decide, by decide, by decide⟩
  | identifier following =>
      have start := Identifier.starts_of_following following
      refine ⟨(starts_visible start).1, (starts_visible start).2.1, ?_⟩
      intro equal
      rw [equal] at start
      revert start
      decide
  | mark =>
      have different := Lexeme.punctuation_ne c
      exact absurd opens (not_or.mpr different)
  | _ => simp at opens

/-- A text whose first token is an attribute or a word that stands at its start begins with neither a
blank nor a comment. -/
theorem exists_eq_cons_of_start {text : List Char} {start : Nat} {first : Token}
    {others : List Token} (given : tokens start text = first :: others)
    (starts : first.start = start) (opens : first.kind = .attribute ∨ first.kind = .identifier) :
    ∃ c rest, text = c :: rest ∧ isBlank c = false ∧ c ≠ '/' ∧ c ≠ ';' := by
  cases text with
  | nil =>
      rw [tokens_nil] at given
      cases given
  | cons c rest =>
      refine ⟨c, rest, rfl, ?_⟩
      cases found : Lexeme.next c rest with
      | error fault =>
          rw [tokens_of_error found] at given
          cases given
      | ok found' =>
          rcases found' with ⟨kind, count⟩
          rw [tokens_cons found] at given
          have late : ∀ token ∈ tokens (start + (c :: rest.take count).length) (rest.drop count),
              start < token.start := by
            intro token member
            have behind := le_start_of_mem_ofLexemes member
            rw [List.length_cons] at behind
            omega
          cases kind with
          | token kind =>
              have same : kind = first.kind := by
                rw [← (List.cons.inj given).1]
              exact visible_of_opening (Lexeme.found_of_next found) (same ▸ opens)
          | _ =>
              have given : tokens (start + (c :: rest.take count).length) (rest.drop count) =
                  first :: others := given
              have after := late first (by rw [given]; exact List.mem_cons_self)
              omega

theorem fills_of_tokens {text : List Char} {front : List Token} {first last : Token}
    (given : tokens 0 text = front ++ [last]) (begins : first ∈ front.head?)
    (starts : first.start = 0) (opens : first.kind = .attribute ∨ first.kind = .identifier)
    (semicolon : last.word = ⟨.semicolon, ";"⟩) (stops : last.stop = text.length)
    (rest : List Char) : Fills text ((tokens 0 text).map Token.word) rest := by
  have headed : tokens 0 text = first :: (front.tail ++ [last]) := by
    rw [given, ← List.cons_append]
    congr
    exact List.eq_cons_of_mem_head? begins
  rcases exists_eq_cons_of_start headed starts opens with ⟨c, others, rfl, visible, noSlash, other⟩
  have kind : last.kind = .semicolon := congrArg Word.kind semicolon
  rcases exists_spells_of_semicolon given kind with ⟨body, behind, split, place, place', spells⟩
  have ends : behind = [] := by
    have length := congrArg List.length split
    rw [← stops, place', place, List.length_append, List.length_cons] at length
    exact List.eq_nil_of_length_eq_zero (by omega)
  subst ends
  cases body with
  | nil => exact absurd (List.cons.inj split).1 other
  | cons c' body =>
      cases (List.cons.inj split).1
      rw [given, split, List.map_append, List.map_singleton, semicolon]
      exact fills_of_spells visible noSlash (spells rest)

end ImportBlock.Text
