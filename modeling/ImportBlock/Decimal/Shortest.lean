namespace ImportBlock.Decimal

/-! The shortest decimal that reads back as a given double. The reals that are read as the double
`mantissa * 2 ^ exponent` form an interval, whose ends belong to it exactly if the mantissa is
even. Of the decimal grids with one, two, three digits and so on, the first one with a point in
that interval gives the digits. If two points of it lie in the interval the nearer one counts, and
of two equally near ones the even one. -/

/-- A positive finite double. All three numbers are in units of `2 ^ exponent`, a quarter of the
distance to the next double. -/
structure Interval where
  value : Nat
  lower : Nat
  upper : Nat
  closed : Bool
  exponent : Int
deriving DecidableEq, Repr

/-- The interval of a double's bits, the sign left out. The double below a power of two is only
half as far away as the one above. -/
def Interval.ofBits (bits : Nat) : Interval :=
  let fraction : Nat := bits % 0x10000000000000
  let biased : Nat := bits / 0x10000000000000 % 0x800
  let mantissa : Nat := if biased = 0 then fraction else fraction + 0x10000000000000
  let exponent : Int := (if biased = 0 then 1 else (biased : Int)) - 1075
  let below : Nat := if fraction = 0 ∧ 1 < biased then 1 else 2
  ⟨4 * mantissa, 4 * mantissa - below, 4 * mantissa + 2, mantissa % 2 = 0, exponent - 2⟩

/-! Numbers `a * 2 ^ e` and `d * 10 ^ k` are compared as the naturals `binarySide e k a` and
`decimalSide e k d`. -/

def binarySide (e k : Int) (a : Nat) : Nat := a * Nat.pow 2 e.toNat * Nat.pow 10 (-k).toNat

def decimalSide (e k : Int) (d : Nat) : Nat := d * Nat.pow 10 k.toNat * Nat.pow 2 (-e).toNat

/-- Whether the decimal `d * 10 ^ k` is read as the double. -/
def Interval.contains (interval : Interval) (k : Int) (d : Nat) : Bool :=
  let point := decimalSide interval.exponent k d
  let lower := binarySide interval.exponent k interval.lower
  let upper := binarySide interval.exponent k interval.upper
  if interval.closed then lower ≤ point && point ≤ upper else lower < point && point < upper

/-- The power of ten of a double's first digit. -/
def Interval.magnitude (interval : Interval) : Int :=
  let shifted := binarySide interval.exponent (-400) interval.value /
    decimalSide interval.exponent (-400) 1
  (Nat.toDigits 10 shifted).length - 401

/-- The point of the grid of multiples of `10 ^ k` that stands for the double, if one does. -/
def Interval.onGrid? (interval : Interval) (k : Int) : Option Nat :=
  let value := binarySide interval.exponent k interval.value
  let unit := decimalSide interval.exponent k 1
  let low := value / unit
  match interval.contains k low, interval.contains k (low + 1) with
  | false, false => none
  | true, false => some low
  | false, true => some (low + 1)
  | true, true =>
      if 2 * value < (2 * low + 1) * unit then some low
      else if (2 * low + 1) * unit < 2 * value then some (low + 1)
      else some (if low % 2 = 0 then low else low + 1)

/-- Digits `d₁ d₂ … dₙ` that stand for `d₁.d₂…dₙ * 10 ^ exponent`, the last one not zero. -/
structure Digits where
  digits : List Char
  exponent : Int
deriving DecidableEq, Repr

def Digits.ofNat (d : Nat) (k : Int) : Digits :=
  let all := Nat.toDigits 10 d
  ⟨(all.reverse.dropWhile (· == '0')).reverse, k + all.length - 1⟩

/-- The shortest decimal of a positive finite double. Seventeen digits tell all doubles apart. -/
def shortest (bits : Nat) : Digits :=
  let interval := Interval.ofBits bits
  let magnitude := interval.magnitude
  let grids := (List.range 17).map fun (count : Nat) => magnitude - (count : Int)
  match grids.findSome? fun k => (interval.onGrid? k).map (Digits.ofNat · k) with
  | some digits => digits
  | none => Digits.ofNat interval.value interval.exponent

example : shortest 0x3FB999999999999A = ⟨['1'], -1⟩ := by decide +kernel
example : shortest 0x3FD3333333333334 = ⟨"30000000000000004".toList, -1⟩ := by decide +kernel
example : shortest 1 = ⟨['5'], -324⟩ := by decide +kernel
example : shortest 0x7FEFFFFFFFFFFFFF = ⟨"17976931348623157".toList, 308⟩ := by decide +kernel

end ImportBlock.Decimal
