import ImportBlock.Decimal.Layout
import ImportBlock.Value

namespace ImportBlock.Toml

/-! Strings and numbers of TOML documents. A reader takes what it reads from the front of a text and
answers with the rest, or with none if the text is malformed. -/

abbrev Parsed (α : Type) := α × List Char

def isSpace (c : Char) : Bool := c == ' ' || c == '\t'

def isSpaceOrBreak (c : Char) : Bool := isSpace c || c == '\n'

def skipSpaces (text : List Char) : List Char := text.dropWhile isSpace

def isControl (c : Char) : Bool := (c.toNat < 0x20 && c != '\t') || c.toNat == 0x7F

/-- The rest of a text behind a start that it must have. -/
def expect (start : String) (text : List Char) : Option (List Char) :=
  if start.toList.isPrefixOf text then some (text.drop start.length) else none

/-! Strings -/

def literal : List Char → Option (Parsed (List Char))
  | [] => none
  | '\'' :: rest => some ([], rest)
  | c :: rest => do
      if isControl c then none
      let (others, rest) ← literal rest
      return (c :: others, rest)

def longLiteral : List Char → Option (Parsed (List Char))
  | [] => none
  | '\'' :: '\'' :: '\'' :: rest => some ([], rest)
  | c :: rest => do
      if isControl c && c != '\n' then none
      let (others, rest) ← longLiteral rest
      return (c :: others, rest)

def hexDigit? (c : Char) : Option Nat :=
  let code := c.toNat
  if c.isDigit then some (code - 48)
  else if 65 ≤ code && code ≤ 70 then some (code - 55)
  else if 97 ≤ code && code ≤ 102 then some (code - 87)
  else none

/-- A character given by its code point in `count` hexadecimal digits. -/
def codePoint (count : Nat) (text : List Char) : Option (Parsed Char) := do
  let digits ← (text.take count).mapM hexDigit?
  let code := digits.foldl (fun code digit => code * 16 + digit) 0
  if digits.length = count && code.isValidChar then some (Char.ofNat code, text.drop count)
  else none

def escaped : List Char → Option (Parsed Char)
  | 'b' :: rest => some ('\x08', rest)
  | 't' :: rest => some ('\t', rest)
  | 'n' :: rest => some ('\n', rest)
  | 'f' :: rest => some ('\x0c', rest)
  | 'r' :: rest => some ('\r', rest)
  | '"' :: rest => some ('"', rest)
  | '\\' :: rest => some ('\\', rest)
  | 'u' :: rest => codePoint 4 rest
  | 'U' :: rest => codePoint 8 rest
  | _ => none

/-- Takes the break that a backslash at the end of a line hides, with the blanks and breaks behind
it. Only blanks may stand between the backslash and the break. -/
def hiddenBreak (text : List Char) : Option (List Char) :=
  match skipSpaces text with
  | [] => if text = [] then none else some []
  | '\n' :: rest => some (rest.dropWhile isSpaceOrBreak)
  | _ => none

def basic : (fuel : Nat) → List Char → Option (Parsed (List Char))
  | 0, _ => none
  | _, [] => none
  | _, '"' :: rest => some ([], rest)
  | fuel + 1, '\\' :: rest => do
      let (c, rest) ← escaped rest
      let (others, rest) ← basic fuel rest
      return (c :: others, rest)
  | fuel + 1, c :: rest => do
      if isControl c then none
      let (others, rest) ← basic fuel rest
      return (c :: others, rest)

def longBasic : (fuel : Nat) → List Char → Option (Parsed (List Char))
  | 0, _ => none
  | _, [] => none
  | _, '"' :: '"' :: '"' :: rest => some ([], rest)
  | fuel + 1, '\\' :: rest =>
      match hiddenBreak rest with
      | some rest => longBasic fuel rest
      | none => do
          let (c, rest) ← escaped rest
          let (others, rest) ← longBasic fuel rest
          return (c :: others, rest)
  | fuel + 1, c :: rest => do
      if isControl c && c != '\n' then none
      let (others, rest) ← longBasic fuel rest
      return (c :: others, rest)

/-- Up to two quotes may stand directly before the three that close a string. -/
def closingQuotes (quote : Char) (string : List Char) : List Char → List Char × List Char
  | first :: second :: rest =>
      if first = quote && second = quote then (string ++ [quote, quote], rest)
      else if first = quote then (string ++ [quote], second :: rest)
      else (string, first :: second :: rest)
  | [first] => if first = quote then (string ++ [quote], []) else (string, [first])
  | [] => (string, [])

def skipBreak : List Char → List Char
  | '\n' :: rest => rest
  | text => text

def quotedString (fuel : Nat) : List Char → Option (Parsed (List Char))
  | '"' :: '"' :: '"' :: rest => do
      let (string, rest) ← longBasic fuel (skipBreak rest)
      return closingQuotes '"' string rest
  | '\'' :: '\'' :: '\'' :: rest => do
      let (string, rest) ← longLiteral (skipBreak rest)
      return closingQuotes '\'' string rest
  | '"' :: rest => basic fuel rest
  | '\'' :: rest => literal rest
  | _ => none

/-! Numbers -/

def moreDigits (isDigit : Char → Bool) : List Char → List Char × List Char
  | [] => ([], [])
  | '_' :: digit :: rest =>
      if isDigit digit then
        let (others, rest) := moreDigits isDigit rest
        (digit :: others, rest)
      else ([], '_' :: digit :: rest)
  | digit :: rest =>
      if isDigit digit then
        let (others, rest) := moreDigits isDigit rest
        (digit :: others, rest)
      else ([], digit :: rest)

def digits (isDigit : Char → Bool) : List Char → Option (Parsed (List Char))
  | first :: rest =>
      if isDigit first then
        let (others, rest) := moreDigits isDigit rest
        some (first :: others, rest)
      else none
  | [] => none

def natOfDigits (base : Nat) (digits : List Char) : Nat :=
  digits.foldl (fun value digit => value * base + (hexDigit? digit).getD 0) 0

/-- A whole number that names its base. -/
def based : List Char → Option (Parsed Value)
  | '0' :: 'x' :: rest => radix 16 (fun c => (hexDigit? c).isSome) rest
  | '0' :: 'o' :: rest => radix 8 (fun c => '0' ≤ c && c ≤ '7') rest
  | '0' :: 'b' :: rest => radix 2 (fun c => c == '0' || c == '1') rest
  | _ => none
where
  radix (base : Nat) (isDigit : Char → Bool) (text : List Char) : Option (Parsed Value) :=
    (digits isDigit text).map fun (digits, rest) => (.int (natOfDigits base digits), rest)

def sign : List Char → Bool × List Char
  | '-' :: rest => (true, rest)
  | '+' :: rest => (false, rest)
  | text => (false, text)

/-- The digits before the point: a zero, or digits that do not begin with one. -/
def integral : List Char → Option (Parsed (List Char))
  | '0' :: rest => some (['0'], rest)
  | text => digits Char.isDigit text

def fraction : List Char → Option (Parsed (List Char))
  | '.' :: rest => digits Char.isDigit rest
  | _ => none

def exponent : List Char → Option (Parsed Int)
  | c :: rest =>
      if c = 'e' || c = 'E' then do
        let (negative, rest) := sign rest
        let (digits, rest) ← digits Char.isDigit rest
        let magnitude : Int := natOfDigits 10 digits
        return (if negative then -magnitude else magnitude, rest)
      else none
  | [] => none

def decimal (text : List Char) : Option (Parsed Value) := do
  let (negative, rest) := sign text
  let (whole, rest) ← integral rest
  let (places, rest) := (fraction rest).getD ([], rest)
  match places, exponent rest with
  | [], none =>
      let magnitude : Int := natOfDigits 10 whole
      return (.int (if negative then -magnitude else magnitude), rest)
  | places, power =>
      let (power, rest) := power.getD (0, rest)
      let number := natOfDigits 10 (whole ++ places)
      return (.float (Decimal.toFloat negative number (power - places.length)), rest)

def special (text : List Char) : Option (Parsed Value) :=
  let (negative, rest) := sign text
  match rest with
  | 'i' :: 'n' :: 'f' :: rest => some (.float (if negative then -1.0 / 0.0 else 1.0 / 0.0), rest)
  | 'n' :: 'a' :: 'n' :: rest => some (.float (0.0 / 0.0), rest)
  | _ => none

def number (text : List Char) : Option (Parsed Value) :=
  ((based text).or (decimal text)).or (special text)

end ImportBlock.Toml
