namespace ImportBlock.Text

/-! Blank characters, and text with its runs of them collapsed. A character is blank if it is a
tab, a line or page break, one of the four information separators, or a Unicode space. The zero
width characters are not blank. -/

def blanks : List Char := [
  '\t', '\n', '\x0b', '\x0c', '\r', '\x1c', '\x1d', '\x1e', '\x1f', ' ', '\u0085', '\u00a0',
  '\u1680', '\u2000', '\u2001', '\u2002', '\u2003', '\u2004', '\u2005', '\u2006', '\u2007',
  '\u2008', '\u2009', '\u200a', '\u2028', '\u2029', '\u202f', '\u205f', '\u3000']

def isBlank (c : Char) : Bool := blanks.contains c

/-- What puts one character before text whose runs are collapsed already: a blank joins the
run that follows it, and is dropped at the end of the text. -/
def collapseStep (c : Char) (rest : List Char) : List Char :=
  if isBlank c then
    match rest with
    | [] => []
    | ' ' :: others => ' ' :: others
    | other => ' ' :: other
  else c :: rest

/-- The words of a text, joined by single spaces. -/
def collapse (text : List Char) : List Char :=
  (text.foldr collapseStep []).dropWhile (· == ' ')

example : collapse " a \t\n b  ".toList = "a b".toList := by decide
example : collapse "   ".toList = [] := by decide

end ImportBlock.Text
