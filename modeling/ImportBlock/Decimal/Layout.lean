import ImportBlock.Decimal.Shortest

namespace ImportBlock.Decimal

/-! How the digits of a floating-point number are laid out, and how a number is made from digits. -/

structure Layout where
  /-- The least exponent that is written positionally. -/
  leastPositional : Int
  /-- The greatest exponent that is written positionally. -/
  greatestPositional : Int
  /-- What ends a positional number without a fraction. -/
  whole : String
  /-- The fewest digits of a written exponent. -/
  exponentDigits : Nat
  infinity : String
  notANumber : String

def padded (width : Nat) (digits : List Char) : List Char :=
  List.replicate (width - digits.length) '0' ++ digits

/-- Digits before and after a point that stands after the first `count` of them. -/
def pointed (whole : String) (digits : List Char) (count : Nat) : String :=
  let integral := digits.take count ++ List.replicate (count - digits.length) '0'
  match digits.drop count with
  | [] => String.ofList integral ++ whole
  | fraction => String.ofList (integral ++ '.' :: fraction)

def Layout.positional (layout : Layout) (number : Digits) : String :=
  match number.exponent with
  | .ofNat exponent => pointed layout.whole number.digits (exponent + 1)
  | .negSucc zeros => pointed layout.whole ('0' :: (List.replicate zeros '0' ++ number.digits)) 1

def Layout.scientific (layout : Layout) (number : Digits) : String :=
  let sign := if number.exponent < 0 then "-" else "+"
  let exponent := padded layout.exponentDigits (Nat.toDigits 10 number.exponent.natAbs)
  pointed "" number.digits 1 ++ "e" ++ sign ++ String.ofList exponent

def Layout.unsigned (layout : Layout) (bits : Nat) : String :=
  if bits = 0 then "0" ++ layout.whole
  else
    let number := shortest bits
    if layout.leastPositional ≤ number.exponent ∧
        number.exponent ≤ layout.greatestPositional then
      layout.positional number
    else layout.scientific number

def Layout.text (layout : Layout) (value : Float) : String :=
  let bits := value.toBits.toNat
  let magnitude := bits % 0x8000000000000000
  let sign := if bits < 0x8000000000000000 then "" else "-"
  if 0x7FF0000000000000 < magnitude then layout.notANumber
  else if magnitude = 0x7FF0000000000000 then sign ++ layout.infinity
  else sign ++ layout.unsigned magnitude

/-- The double nearest to `digits * 10 ^ exponent`. Beyond four hundred places on either side of
the point the exponent alone decides. -/
def toFloat (negative : Bool) (digits : Nat) (exponent : Int) : Float :=
  let count : Int := (Nat.toDigits 10 digits).length
  let magnitude : Float :=
    if digits = 0 ∨ exponent + count < -400 then 0
    else if 400 < exponent + count then 1.0 / 0.0
    else Float.ofScientific digits (exponent < 0) exponent.natAbs
  if negative then -magnitude else magnitude

end ImportBlock.Decimal
