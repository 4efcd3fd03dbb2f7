import ImportBlock.Lexeme

namespace ImportBlock

/-! The tokens of a text, with the places where they stand. -/

structure Token where
  kind : TokenKind
  text : String
  /-- How many characters stand before the token. -/
  start : Nat
  /-- How many characters stand before the end of the token. -/
  stop : Nat
deriving DecidableEq, Repr

namespace Token

def isWord (token : Token) (word : String) : Bool :=
  token.kind = .identifier && token.text = word

/-- The tokens among lexemes, the first of which stands at `start`. -/
def ofLexemes (start : Nat) : List Lexeme → List Token
  | [] => []
  | lexeme :: rest =>
      let stop := start + lexeme.source.length
      match lexeme.kind with
      | .token kind => ⟨kind, String.ofList lexeme.text, start, stop⟩ :: ofLexemes stop rest
      | _ => ofLexemes stop rest

end Token

structure TokenFault where
  fault : LexicalFault
  offset : Nat
deriving DecidableEq, Repr

/-- The tokens of a text up to its end or to its first fault. -/
structure TokenStream where
  tokens : List Token
  fault : Option TokenFault
  /-- The length of the text. -/
  length : Nat
deriving DecidableEq, Repr

namespace TokenStream

def ofText (text : List Char) : TokenStream :=
  let (lexemes, fault) := Lexeme.scan text
  let covered := (lexemes.flatMap (·.source)).length
  ⟨Token.ofLexemes 0 lexemes, fault.map fun fault => ⟨fault, covered⟩, text.length⟩

end TokenStream

/-! The tokens of a text one by one. A text is cut no further than the next token asks for. -/

structure Tokenizer where
  /-- The characters that are not cut yet. -/
  rest : List Char
  /-- How many characters stand before them. -/
  offset : Nat
deriving DecidableEq, Repr

namespace Tokenizer

def ofText (text : List Char) : Tokenizer := ⟨text, 0⟩

/-- The next token, none at the end of the text. After a fault the text counts as ended. -/
def next (tokenizer : Tokenizer) : Except TokenFault (Option Token) × Tokenizer :=
  match _equal : tokenizer.rest with
  | [] => (.ok none, tokenizer)
  | c :: rest =>
      match Lexeme.next c rest with
      | .error fault => (.error ⟨fault, tokenizer.offset⟩, { tokenizer with rest := [] })
      | .ok (kind, count) =>
          let lexeme : Lexeme := ⟨kind, c :: rest.take count⟩
          let stop := tokenizer.offset + lexeme.source.length
          match kind with
          | .token kind =>
              (.ok (some ⟨kind, String.ofList lexeme.text, tokenizer.offset, stop⟩),
                ⟨rest.drop count, stop⟩)
          | _ => next ⟨rest.drop count, stop⟩
termination_by tokenizer.rest.length
decreasing_by simp_all only [List.length_drop, List.length_cons]; omega

def tokens (tokenizer : Tokenizer) : List Token :=
  Token.ofLexemes tokenizer.offset (Lexeme.scan tokenizer.rest).1

def pending (tokenizer : Tokenizer) : Option TokenFault :=
  let (lexemes, fault) := Lexeme.scan tokenizer.rest
  let covered := (lexemes.flatMap (·.source)).length
  fault.map fun fault => ⟨fault, tokenizer.offset + covered⟩

theorem length_next_le (tokenizer : Tokenizer) :
    tokenizer.next.2.rest.length ≤ tokenizer.rest.length := by
  fun_induction next tokenizer with
  | case1 => exact Nat.le_refl _
  | case2 => exact Nat.zero_le _
  | case3 tokenizer c rest equal =>
      rw [equal, List.length_drop, List.length_cons]
      omega
  | case4 tokenizer c rest equal _ _ _ _ _ _ induction =>
      rw [List.length_drop] at induction
      rw [equal, List.length_cons]
      omega

theorem length_next_lt {tokenizer next : Tokenizer} {token : Token}
    (pulled : tokenizer.next = (.ok (some token), next)) :
    next.rest.length < tokenizer.rest.length := by
  fun_induction Tokenizer.next tokenizer with
  | case1 => cases pulled
  | case2 => cases pulled
  | case3 tokenizer c rest equal =>
      cases pulled
      rw [equal, List.length_drop, List.length_cons]
      omega
  | case4 tokenizer c rest equal _ _ _ _ _ _ induction =>
      have shorter := induction pulled
      rw [List.length_drop] at shorter
      rw [equal, List.length_cons]
      omega

end Tokenizer

end ImportBlock
