import ImportBlock.Proofs.Statement.Derivation
import ImportBlock.Proofs.Stitch

/-! Reading two texts put together with a line feed between them. Their statements are read one after the
other, those of the second as far behind as the second text is. -/

namespace ImportBlock

def Span.shift (count : Nat) (span : Span) : Span := ⟨span.start + count, span.stop + count⟩

def Statement.shift (count : Nat) (statement : Statement) : Statement :=
  { statement with span := statement.span.map (Span.shift count) }

theorem Statement.shift_zero (statement : Statement) : shift 0 statement = statement := by
  rcases statement with ⟨tree, metadata, fragment, _ | span⟩ <;> rfl

theorem Token.span?_map_shift (count : Nat) (tokens : List Token) :
    span? (tokens.map (shift count)) = (span? tokens).map (Span.shift count) := by
  rw [span?, span?, List.head?_map, List.getLast?_map]
  cases tokens.head? <;> cases tokens.getLast? <;> rfl

namespace Backlog

variable {backlog next other : Backlog} {more : List Token} {count : Nat}

theorem readItem_map_shift_append (words : ∀ token ∈ backlog.tokens, token.word.IsRead)
    {statement : Statement} (success : backlog.readItem = (.ok statement, next))
    (fragment : other.fragment = backlog.fragment)
    (tokens : other.tokens = backlog.tokens.map (Token.shift count) ++ more) :
    other.readItem = (.ok (statement.shift count),
      { other with tokens := next.tokens.map (Token.shift count) ++ more }) := by
  rcases exists_phrase_of_readItem words success with ⟨item, front, formed, split, spelled, _⟩
  rcases readItem_append formed split spelled with ⟨span, reaches, again⟩
  have moved : other.tokens = front.map (Token.shift count) ++
      (next.tokens.map (Token.shift count) ++ more) := by
    rw [tokens, split, List.map_append, List.append_assoc]
  rcases readItem_append formed moved ((Token.map_word_map_shift count front).trans spelled) with
    ⟨span', reaches', success'⟩
  rw [Token.span?_map_shift, reaches] at reaches'
  cases reaches'
  have same := Except.ok.inj (Prod.mk.inj (success.symm.trans again)).1
  rw [success', same, fragment]
  rfl

/-- Statements are read from their tokens further on, and the tokens behind them after these. -/
theorem readAll_map_shift_append (words : ∀ token ∈ backlog.tokens, token.word.IsRead)
    {statements : List Statement} (success : backlog.readAll = .ok statements) :
    ∀ {other : Backlog}, other.fragment = backlog.fragment →
      other.tokens = backlog.tokens.map (Token.shift count) ++ more →
        other.readAll = ({ other with tokens := more } : Backlog).readAll.map
          (statements.map (Statement.shift count) ++ ·) := by
  fun_induction readAll backlog generalizing statements with
  | case1 backlog ended =>
      intro other _ tokens
      unfold runOut at success
      split at success
      · cases success
      · cases success
        rw [ended, List.map_nil, List.nil_append] at tokens
        rw [← tokens]
        cases other.readAll <;> rfl
  | case2 => cases success
  | case3 backlog _ _ _ statement next equal induction =>
      intro other fragment tokens
      rcases of_readItem equal with ⟨_, _, _, same⟩
      rcases exists_phrase_of_readItem words equal with ⟨_, front, _, split, _⟩
      cases behind : next.readAll with
      | error _ =>
          rw [behind] at success
          cases success
      | ok others =>
          rw [behind] at success
          cases success
          have read := readItem_map_shift_append words equal fragment tokens
          rw [split] at words
          have later := @induction (List.forall_mem_append.mp words).2 others behind
            { other with tokens := next.tokens.map (Token.shift count) ++ more }
            (fragment.trans (by rw [same])) rfl
          rw [readAll_of_readItem read, later]
          cases ({ other with tokens := more } : Backlog).readAll <;> rfl

/-! ## Two texts -/

theorem toList_stitch (left right : String) :
    (left ++ "\n" ++ right).toList = left.toList ++ '\n' :: right.toList := by
  rw [String.toList_append, String.toList_append, List.append_assoc]
  rfl

theorem tokens_ofText_stitch {left : String} (readable : Text.fault? left.toList = none)
    (right : String) (fragment : Option Int) :
    (ofText (left ++ "\n" ++ right) fragment).tokens = (ofText left fragment).tokens ++
      (ofText right fragment).tokens.map (Token.shift (left.length + 1)) := by
  have stitched := Text.tokenStream_stitch readable right.toList
  rwa [← toList_stitch, String.length_toList] at stitched

theorem pending_ofText_stitch {left right : String} (readable : Text.fault? left.toList = none)
    (readable' : Text.fault? right.toList = none) (fragment : Option Int) :
    (ofText (left ++ "\n" ++ right) fragment).pending = none := by
  have stitched := (Text.stitches_of_fault?_eq_none readable right.toList).fault?
  rw [← toList_stitch, readable'] at stitched
  exact Option.map_eq_none_iff.mpr stitched

end Backlog

namespace Statement

theorem fault?_of_parse {text : String} {fragment : Option Int} {statements : List Statement}
    (success : parse text fragment = .ok statements) : Text.fault? text.toList = none := by
  rcases exists_derives_of_parse success with ⟨items, derives, _⟩
  exact Option.map_eq_none_iff.mp derives.readable

theorem parse_stitch {left right : String} {fragment : Option Int} {first second : List Statement}
    (accepted : parse left fragment = .ok first) (accepted' : parse right fragment = .ok second) :
    parse (left ++ "\n" ++ right) fragment =
      .ok (first ++ second.map (shift (left.length + 1))) := by
  have readable := fault?_of_parse accepted
  have readable' := fault?_of_parse accepted'
  rw [parse_eq] at accepted accepted'
  have words : ∀ text, ∀ token ∈ (Backlog.ofText text fragment).tokens, token.word.IsRead :=
    fun _ _ member => TokenStream.isRead_of_mem_tokens member
  let whole := Backlog.ofText (left ++ "\n" ++ right) fragment
  have tokens := Backlog.tokens_ofText_stitch readable right fragment
  have pending := Backlog.pending_ofText_stitch readable readable' fragment
  let behind : Backlog := { whole with
    tokens := (Backlog.ofText right fragment).tokens.map (Token.shift (left.length + 1)) }
  have front : whole.readAll = behind.readAll.map (first ++ ·) := by
    have read := @Backlog.readAll_map_shift_append _ behind.tokens 0 (words left) _ accepted whole
      rfl (by rw [tokens, Token.shift_zero, List.map_id])
    rwa [List.map_id'' shift_zero] at read
  have back : behind.readAll = .ok (second.map (shift (left.length + 1))) := by
    have read := @Backlog.readAll_map_shift_append _ [] (left.length + 1) (words right) _ accepted'
      behind rfl (List.append_nil _).symm
    have ended : ({ behind with tokens := [] } : Backlog).readAll = .ok [] :=
      Backlog.readAll_of_tokens_nil rfl pending
    rw [read, ended, Except.map, List.append_nil]
  rw [parse_eq, front, back]
  rfl

end Statement

end ImportBlock
