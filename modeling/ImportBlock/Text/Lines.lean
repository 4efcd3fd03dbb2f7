namespace ImportBlock.Text

/-! ## Lines

A text as its lines, each with the break that ends it. Breaks are the line feed, the carriage
return alone or before a line feed, the vertical tab, the form feed, three of the information
separators, the next-line control and the two Unicode separators. -/

def breaksLine (c : Char) : Bool :=
  let code := c.toNat
  (0x0A ≤ code && code ≤ 0x0D) || (0x1C ≤ code && code ≤ 0x1E) || code == 0x85 ||
    code == 0x2028 || code == 0x2029

def lines : List Char → List (List Char)
  | [] => []
  | '\r' :: '\n' :: rest => ['\r', '\n'] :: lines rest
  | c :: rest =>
      if breaksLine c then [c] :: lines rest
      else match lines rest with
        | [] => [[c]]
        | first :: others => (c :: first) :: others

theorem flatten_lines (text : List Char) : (lines text).flatten = text := by
  fun_induction lines text with
  | case1 => rfl
  | case2 rest induction => simp [induction]
  | case3 c rest _ _ induction => simp [induction]
  | case4 c rest _ _ empty induction => simp_all
  | case5 c rest _ _ first others equal induction => simp_all

example : lines "a\r\n\rb".toList = ["a\r\n".toList, "\r".toList, "b".toList] := by decide

/-! ## Places

Places in a text, as a reader of the text counts them: lines and columns from one, a line ending after each
line feed and nowhere else. -/

structure Position where
  line : Nat
  column : Nat
deriving DecidableEq, Repr

namespace Position

/-- The place of the character that `offset` characters precede. -/
def ofOffset (text : List Char) (offset : Nat) : Position :=
  let before := text.take offset
  ⟨before.count '\n' + 1, (before.reverse.takeWhile (· != '\n')).length + 1⟩

example : ofOffset "a\nbc".toList 3 = ⟨2, 2⟩ := by decide
example : ofOffset "a\nbc".toList 2 = ⟨2, 1⟩ := by decide

end Position

end ImportBlock.Text
