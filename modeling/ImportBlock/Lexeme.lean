import ImportBlock.Identifier
import ImportBlock.Text.Blank

namespace ImportBlock

/-! Lexemes: a source text cut into pieces that hold all of it. Besides the tokens of use items
there are runs of blanks and two kinds of comment. -/

inductive TokenKind
  | identifier
  | attribute
  | innerAttribute
  | pathSeparator
  | openBrace
  | closeBrace
  | comma
  | star
  | semicolon
  | openParenthesis
  | closeParenthesis
  | other
deriving DecidableEq, Repr

inductive LexemeKind
  | blank
  | lineComment
  | blockComment
  | token (kind : TokenKind)
deriving DecidableEq, Repr

inductive LexicalFault
  | openComment
  | openAttribute
deriving DecidableEq, Repr

structure Lexeme where
  kind : LexemeKind
  source : List Char
deriving DecidableEq, Repr

namespace Lexeme

/-- How many characters a line comment goes on for, its line feed included. -/
def lineLength : List Char → Nat
  | [] => 0
  | '\n' :: _ => 1
  | _ :: rest => lineLength rest + 1

/-- How many characters it takes to close a block comment and the `depth` comments around it. -/
def commentLength (depth : Nat) : List Char → Option Nat
  | [] => none
  | '/' :: '*' :: rest => (commentLength (depth + 1) rest).map (· + 2)
  | '*' :: '/' :: rest =>
      match depth with
      | 0 => some 2
      | depth + 1 => (commentLength depth rest).map (· + 2)
  | _ :: rest => (commentLength depth rest).map (· + 1)

/-- How many characters it takes to close an attribute and the `depth` brackets around. Brackets
inside string literals do not count, nor do quotes behind a backslash there. -/
def attributeLength : (depth : Nat) → (inString : Bool) → List Char → Option Nat
  | _, _, [] => none
  | depth, true, '\\' :: _ :: rest => (attributeLength depth true rest).map (· + 2)
  | depth, true, '"' :: rest => (attributeLength depth false rest).map (· + 1)
  | depth, true, _ :: rest => (attributeLength depth true rest).map (· + 1)
  | depth, false, '"' :: rest => (attributeLength depth true rest).map (· + 1)
  | depth, false, '[' :: rest => (attributeLength (depth + 1) false rest).map (· + 1)
  | 0, false, ']' :: _ => some 1
  | depth + 1, false, ']' :: rest => (attributeLength depth false rest).map (· + 1)
  | depth, false, _ :: rest => (attributeLength depth false rest).map (· + 1)

/-- A single character that no longer lexeme begins with. -/
def punctuation : Char → TokenKind
  | '\x7b' => .openBrace
  | '\x7d' => .closeBrace
  | ',' => .comma
  | '*' => .star
  | ';' => .semicolon
  | '(' => .openParenthesis
  | ')' => .closeParenthesis
  | _ => .other

def closed (fault : LexicalFault) (kind : LexemeKind) (before : Nat) (length : Option Nat) :
    Except LexicalFault (LexemeKind × Nat) :=
  match length with
  | none => .error fault
  | some length => .ok (kind, before + length)

def afterSlash : List Char → Except LexicalFault (LexemeKind × Nat)
  | '/' :: rest => .ok (.lineComment, 1 + lineLength rest)
  | '*' :: rest => closed .openComment .blockComment 1 (commentLength 0 rest)
  | _ => .ok (.token .other, 0)

def afterSign : List Char → Except LexicalFault (LexemeKind × Nat)
  | '[' :: rest => closed .openAttribute (.token .attribute) 1 (attributeLength 0 false rest)
  | '!' :: '[' :: rest =>
      closed .openAttribute (.token .innerAttribute) 2 (attributeLength 0 false rest)
  | _ => .ok (.token .other, 0)

def afterColon : List Char → LexemeKind × Nat
  | ':' :: _ => (.token .pathSeparator, 1)
  | _ => (.token .other, 0)

/-- The kind of the lexeme that begins with `c`, and how many of the characters after `c` belong
to it. -/
def next (c : Char) (rest : List Char) : Except LexicalFault (LexemeKind × Nat) :=
  if Text.isBlank c then .ok (.blank, (rest.takeWhile Text.isBlank).length)
  else if c = '/' then afterSlash rest
  else if c = '#' then afterSign rest
  else if c = ':' then .ok (afterColon rest)
  else match Identifier.following c rest with
    | some count => .ok (.token .identifier, count)
    | none => .ok (.token (punctuation c), 0)

/-- A text as its lexemes, with the fault of what stands behind the last of them, if any. -/
def scan : List Char → List Lexeme × Option LexicalFault
  | [] => ([], none)
  | c :: rest =>
      match next c rest with
      | .error fault => ([], some fault)
      | .ok (kind, count) =>
          let others := scan (rest.drop count)
          (⟨kind, c :: rest.take count⟩ :: others.1, others.2)
termination_by text => text.length
decreasing_by simp only [List.length_drop, List.length_cons]; omega

theorem flatMap_source_prefix (text : List Char) :
    (scan text).1.flatMap (·.source) <+: text := by
  fun_induction scan text with
  | case1 => exact List.prefix_rfl
  | case2 => exact List.nil_prefix
  | case3 c rest kind count equal others induction =>
      obtain ⟨tail, covered⟩ := induction
      refine ⟨tail, ?_⟩
      simp [others, covered]

theorem flatMap_source {text : List Char} (readable : (scan text).2 = none) :
    (scan text).1.flatMap (·.source) = text := by
  fun_induction scan text with
  | case1 => rfl
  | case2 => simp at readable
  | case3 c rest kind count equal others induction => simp [others, induction readable]

/-- The text that a token stands for: that of an attribute is what its brackets enclose, with the
blanks collapsed. -/
def text (lexeme : Lexeme) : List Char :=
  match lexeme.kind with
  | .token .attribute => Text.collapse (lexeme.source.drop 2).dropLast
  | .token .innerAttribute => Text.collapse (lexeme.source.drop 3).dropLast
  | _ => lexeme.source

example : (scan "use a::*; // end".toList).1.map (·.source) =
    ["use", " ", "a", "::", "*", ";", " ", "// end"].map String.toList := by cbv
example : (scan "/* a /* b */".toList).2 = some .openComment := by cbv

end Lexeme

end ImportBlock
