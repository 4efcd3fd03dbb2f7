import ImportBlock.Toml.Document
import ImportBlock.Toml.Scalar

namespace ImportBlock.Toml

/-! Reading TOML documents: keys, values, and the lines of a document. -/

def isBareKey (c : Char) : Bool := c.isAlphanum || c == '-' || c == '_'

/-! Fuel is spent by strings on their characters, by keys on their parts, and by values on brackets
and items. Twice the length of the text is more than enough for all of it. -/

def keyPart (fuel : Nat) (text : List Char) : Option (Parsed String) :=
  match text with
  | '"' :: rest => (basic fuel rest).map fun (name, rest) => (String.ofList name, rest)
  | '\'' :: rest => (literal rest).map fun (name, rest) => (String.ofList name, rest)
  | _ =>
      match text.takeWhile isBareKey with
      | [] => none
      | name => some (String.ofList name, text.dropWhile isBareKey)

/-- A key of one part or more, and the spaces behind it. -/
def key : (fuel : Nat) → List Char → Option (Parsed (List String))
  | 0, _ => none
  | fuel + 1, text => do
      let (part, rest) ← keyPart fuel text
      match skipSpaces rest with
      | '.' :: rest => do
          let (parts, rest) ← key fuel (skipSpaces rest)
          return (part :: parts, rest)
      | rest => return ([part], rest)

/-- The text behind blanks, breaks and comments. A comment reaches up to the next break. -/
def skipFiller (inComment : Bool) : List Char → Option (List Char)
  | [] => some []
  | c :: rest =>
      if c = '\n' then skipFiller false rest
      else if inComment then if isControl c then none else skipFiller true rest
      else if isSpace c then skipFiller false rest
      else if c = '#' then skipFiller true rest
      else some (c :: rest)

def skipComment : List Char → Option (List Char)
  | '#' :: rest =>
      if (rest.takeWhile (· != '\n')).any isControl then none
      else some (rest.dropWhile (· != '\n'))
  | text => some text

mutual
def value : (fuel : Nat) → List Char → Option (Parsed Value)
  | 0, _ => none
  | fuel + 1, text =>
      match text with
      | '"' :: _ | '\'' :: _ =>
          (quotedString fuel text).map fun (string, rest) => (.string (String.ofList string), rest)
      | 't' :: 'r' :: 'u' :: 'e' :: rest => some (.bool true, rest)
      | 'f' :: 'a' :: 'l' :: 's' :: 'e' :: rest => some (.bool false, rest)
      | '[' :: rest => (items fuel rest).map fun (items, rest) => (.list items, rest)
      | '\x7b' :: rest =>
          match skipSpaces rest with
          | '\x7d' :: rest => some (.table [], rest)
          | rest => (members fuel [] rest).map fun (fields, rest) => (.table (valuesOf fields), rest)
      | _ => number text

def items : (fuel : Nat) → List Char → Option (Parsed (List Value))
  | 0, _ => none
  | fuel + 1, text => do
      match ← skipFiller false text with
      | ']' :: rest => return ([], rest)
      | rest =>
          let (item, rest) ← value fuel rest
          match ← skipFiller false rest with
          | ']' :: rest => return ([item], rest)
          | ',' :: rest => do
              let (others, rest) ← items fuel rest
              return (item :: others, rest)
          | _ => none

/-- The members of an inline table up to its closing brace, behind those read so far. -/
def members : (fuel : Nat) → Fields → List Char → Option (Parsed Fields)
  | 0, _, _ => none
  | fuel + 1, fields, text => do
      let (key, rest) ← key fuel text
      let (value, rest) ← value fuel (skipSpaces (← expect "=" rest))
      let fields ← fields.assign 0 value key
      match skipSpaces rest with
      | '\x7d' :: rest => return (fields, rest)
      | ',' :: rest => members fuel fields (skipSpaces rest)
      | _ => none
end

/-- The document so far, the table that lines add to, and how many headers there were. -/
structure Progress where
  fields : Fields := []
  header : List String := []
  number : Nat := 0

def header (fuel : Nat) (progress : Progress) (text : List Char) : Option (Parsed Progress) :=
  let number := progress.number + 1
  match text with
  | '[' :: rest => do
      let (path, rest) ← key fuel (skipSpaces rest)
      let fields ← progress.fields.addTable path
      return (⟨fields, path, number⟩, ← expect "]]" rest)
  | _ => do
      let (path, rest) ← key fuel (skipSpaces text)
      let fields ← progress.fields.openTable path
      return (⟨fields, path, number⟩, ← expect "]" rest)

def assignment (fuel : Nat) (progress : Progress) (text : List Char) :
    Option (Parsed Progress) := do
  let (key, rest) ← key fuel text
  let rest ← expect "=" rest
  let (value, rest) ← value fuel (skipSpaces rest)
  let fields ← progress.fields.change (·.assign progress.number value key) progress.header
  return ({ progress with fields }, rest)

def line (fuel : Nat) (progress : Progress) (text : List Char) : Option (Parsed Progress) :=
  match text with
  | [] | '\n' :: _ | '#' :: _ => some (progress, text)
  | '[' :: rest => header fuel progress rest
  | _ => assignment fuel progress text

def lines : (fuel : Nat) → Progress → List Char → Option Progress
  | 0, _, _ => none
  | fuel + 1, progress, text => do
      let (progress, rest) ← line fuel progress (skipSpaces text)
      match ← skipComment (skipSpaces rest) with
      | [] => return progress
      | '\n' :: rest => lines fuel progress rest
      | _ => none

/-- Line feeds count as breaks, behind carriage returns too. -/
def unifyBreaks : List Char → List Char
  | [] => []
  | '\r' :: '\n' :: rest => '\n' :: unifyBreaks rest
  | c :: rest => c :: unifyBreaks rest

def parse? (text : List Char) : Option (List (String × Value)) :=
  let text := unifyBreaks text
  (lines (2 * text.length + 2) {} text).map fun progress => valuesOf progress.fields

end ImportBlock.Toml
