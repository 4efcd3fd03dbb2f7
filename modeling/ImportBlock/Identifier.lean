namespace ImportBlock.Identifier

/-! Identifiers: an ASCII letter or an underscore, then letters, digits and underscores, the whole
behind an optional `r#`. -/

def starts (c : Char) : Bool := c.isAlpha || c == '_'

def continues (c : Char) : Bool := c.isAlphanum || c == '_'

/-- How many characters of an identifier follow its first character, which is `c`. An `r#` belongs
to the identifier only if one can begin behind it. -/
def following (c : Char) (rest : List Char) : Option Nat :=
  match c, rest with
  | 'r', '#' :: first :: others =>
      if starts first then some (2 + (others.takeWhile continues).length) else some 0
  | _, _ => if starts c then some (rest.takeWhile continues).length else none

/-- Whether a text is an identifier. One line feed at its end is let through. -/
def accepts (text : List Char) : Bool :=
  let plain := match text with
    | 'r' :: '#' :: rest => rest
    | other => other
  match plain with
  | [] => false
  | first :: rest =>
      starts first && (rest.dropWhile continues == [] || rest.dropWhile continues == ['\n'])

example : accepts "r#type".toList = true := by decide
example : accepts "r#".toList = false := by decide
example : accepts "a\n".toList = true := by decide
example : accepts "é".toList = false := by decide

def isPathKeyword (text : String) : Bool :=
  text == "self" || text == "super" || text == "crate"

end ImportBlock.Identifier
