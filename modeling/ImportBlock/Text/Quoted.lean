import ImportBlock.Text.Printable

namespace ImportBlock.Text

/-! ## Hexadecimal digits -/

def hexDigits : (width : Nat) → Nat → List Char
  | 0, _ => []
  | width + 1, value => hexDigits width (value / 16) ++ [(value % 16).digitChar]

example : hexDigits 4 0xAD = ['0', '0', 'a', 'd'] := by decide

/-! ## Quoted text

Text in quotes, as messages show it. Apostrophes enclose it, unless it holds an apostrophe and no double
quote. The backslash, the enclosing quote and the common breaks are escaped by a backslash; any other
character that cannot be printed is written by its code point. -/

def enclosingQuote (text : List Char) : Char :=
  if text.contains '\'' && !text.contains '"' then '"' else '\''

def escape (quote c : Char) : List Char :=
  if c == '\\' || c == quote then ['\\', c]
  else if c == '\n' then ['\\', 'n']
  else if c == '\r' then ['\\', 'r']
  else if c == '\t' then ['\\', 't']
  else if isPrintable c then [c]
  else if c.toNat < 0x100 then '\\' :: 'x' :: hexDigits 2 c.toNat
  else if c.toNat < 0x10000 then '\\' :: 'u' :: hexDigits 4 c.toNat
  else '\\' :: 'U' :: hexDigits 8 c.toNat

def quoted (text : String) : String :=
  let quote := enclosingQuote text.toList
  String.ofList (quote :: text.toList.flatMap (escape quote) ++ [quote])

example : quoted "it's" = "\"it's\"" := by decide +kernel
example : quoted "a\n\u00a0" = "'a\\n\\xa0'" := by decide +kernel

end ImportBlock.Text
