import ImportBlock.Proofs.Frame

/-! Two texts put together with a line feed between them. Where the first can be cut into lexemes up to
its end, each token of the two is found again, those of the second as far behind as the second text
is. -/

namespace ImportBlock

/-! ## Tokens further on -/

def Token.shift (count : Nat) (token : Token) : Token :=
  { token with start := token.start + count, stop := token.stop + count }

namespace Token

@[simp] theorem shift_zero : shift 0 = id := rfl

@[simp] theorem map_word_map_shift (count : Nat) (tokens : List Token) :
    (tokens.map (shift count)).map word = tokens.map word := by
  rw [List.map_map]
  rfl

theorem ofLexemes_add (start count : Nat) (lexemes : List Lexeme) :
    ofLexemes (start + count) lexemes = (ofLexemes start lexemes).map (shift count) := by
  induction lexemes generalizing start with
  | nil => rfl
  | cons lexeme rest induction =>
      have later := induction (start + lexeme.source.length)
      rw [Nat.add_right_comm] at later
      rw [ofLexemes, ofLexemes, later]
      cases lexeme.kind with
      | token kind => simp [shift, Nat.add_right_comm]
      | _ => rfl

end Token

namespace Text

theorem tokens_add (start count : Nat) (text : List Char) :
    tokens (start + count) text = (tokens start text).map (Token.shift count) :=
  Token.ofLexemes_add start count _

/-! ## In front of a line feed -/

/-- Whether two texts keep their tokens if a line feed is put between them. -/
structure Stitches (text rest : List Char) : Prop where
  tokens : ∀ start, tokens start (text ++ '\n' :: rest) =
    tokens start text ++ Text.tokens (start + (text.length + 1)) rest
  fault? : fault? (text ++ '\n' :: rest) = Text.fault? rest

variable {rest : List Char}

theorem Stitches.of_skips {text : List Char} (none : ∀ start, Text.tokens start text = [])
    (skips : Spells (text ++ ['\n']) [] rest) : Stitches text rest := by
  have joined : text ++ '\n' :: rest = text ++ ['\n'] ++ rest := by
    rw [List.append_assoc, List.singleton_append]
  constructor
  · intro start
    rw [none, joined, skips.skips, List.nil_append, List.length_append, List.length_singleton]
  · rw [joined, skips.fault?]

theorem stitches_lineComment {line : List Char} (endless : '\n' ∉ line) (rest : List Char) :
    Stitches ('/' :: '/' :: line) rest := by
  refine .of_skips (fun start => ?_) (spells_lineComment endless rest)
  rw [tokens_cons (Lexeme.next_lineComment line), Lexeme.lineLength_of_not_mem endless,
    List.drop_eq_nil_of_le (by rw [List.length_cons, Nat.add_comm]), tokens_nil]
  rfl

/-- What a piece of text adds to the tokens of the text behind it. -/
structure Adds (piece : List Char) (front : Nat → List Token) (tail : List Char) : Prop where
  tokens : ∀ start, Text.tokens start (piece ++ tail) =
    front start ++ Text.tokens (start + piece.length) tail
  fault? : Text.fault? (piece ++ tail) = Text.fault? tail

theorem Spells.adds {piece tail : List Char} (spells : Spells piece [] tail) :
    Adds piece (fun _ => []) tail := ⟨spells.skips, spells.fault?⟩

theorem adds_lexeme {c : Char} {body tail : List Char} {kind : LexemeKind}
    (found : Lexeme.next c (body ++ tail) = .ok (kind, body.length)) :
    Adds (c :: body) (fun start => Token.ofLexemes start [⟨kind, c :: body⟩]) tail := by
  constructor
  · intro start
    rw [tokens, scan_append found]
    cases kind <;> rfl
  · exact (spells_lexeme found).fault?

theorem Stitches.cons {piece behind : List Char} {front : Nat → List Token}
    (alone : Adds piece front behind) (before : Adds piece front (behind ++ '\n' :: rest))
    (later : Stitches behind rest) : Stitches (piece ++ behind) rest := by
  constructor
  · intro start
    rw [List.append_assoc, before.tokens, alone.tokens, later.tokens, List.append_assoc,
      List.length_append]
    simp only [Nat.add_assoc]
  · rw [List.append_assoc, before.fault?, later.fault?]

/-- A text that can be cut into lexemes up to its end keeps its tokens in front of a line feed. -/
theorem stitches_of_fault?_eq_none {text : List Char} (readable : fault? text = none)
    (rest : List Char) : Stitches text rest := by
  induction text using Lexeme.scan.induct with
  | case1 => exact .of_skips (fun start => tokens_nil start) (spells_blank (by decide) rest)
  | case2 c body fault failed =>
      rw [fault?, Lexeme.scan, failed] at readable
      cases readable
  | case3 c body kind count found induction =>
      have within := (Lexeme.found_of_next found).count_le
      rw [fault?_cons found] at readable
      have later := induction readable
      let piece := c :: body.take count
      have whole : c :: body = piece ++ body.drop count := (cons_take_append_drop c body count).symm
      cases blank : isBlank c with
      | true =>
          have run : ∀ c ∈ piece, isBlank c = true := by
            have taken := found
            rw [Lexeme.next, if_pos blank] at taken
            cases taken
            rw [List.forall_mem_cons,
              ← List.prefix_iff_eq_take.mp (List.takeWhile_prefix isBlank)]
            exact ⟨blank, fun _ member => List.mem_takeWhile_imp member⟩
          rw [whole]
          exact .cons (spells_blanks run _).adds (spells_blanks run _).adds later
      | false =>
          by_cases ended : kind = .lineComment → '\n' ∈ body
          · have moved := Lexeme.next_of_line_feed found blank ended rest
            have taken : (body.take count).length = count := List.length_take_of_le within
            rw [← List.take_append_drop count body, List.append_assoc] at moved
            rw [← List.take_append_drop count body] at found
            have alone := @adds_lexeme c (body.take count) (body.drop count) kind (by rwa [taken])
            have before := @adds_lexeme c (body.take count) (body.drop count ++ '\n' :: rest) kind
              (by rwa [taken])
            rw [whole]
            exact .cons alone before later
          · rw [Classical.not_imp] at ended
            rcases ended with ⟨rfl, endless⟩
            generalize kind : LexemeKind.lineComment = kind at found
            cases Lexeme.found_of_next found with
            | lineComment line =>
                exact stitches_lineComment (fun inside => endless (List.mem_cons_of_mem _ inside)) rest
            | _ => cases kind

theorem tokenStream_stitch {text : List Char} (readable : fault? text = none) (rest : List Char) :
    (TokenStream.ofText (text ++ '\n' :: rest)).tokens = (TokenStream.ofText text).tokens ++
      (TokenStream.ofText rest).tokens.map (Token.shift (text.length + 1)) := by
  have stitched := (stitches_of_fault?_eq_none readable rest).tokens 0
  rw [Nat.zero_add, ← Nat.zero_add (text.length + 1), tokens_add] at stitched
  exact stitched

end Text

end ImportBlock
