/-!
# Shortest decimals

The decimal with the fewest digits that reads back as a given binary64 value: of the decimals in
the interval of reals that round to the value, one with the fewest digits, and of those the
nearest. All arithmetic is on natural numbers.
-/

namespace ApiSurface.Numeral

/-- A finite positive binary value: `mant * 2 ^ expo`. -/
structure Dyadic where
  mant : Nat
  expo : Int

/-- A decimal `digits * 10 ^ expo`. -/
structure Decimal where
  digits : Nat
  expo : Int
deriving Repr

namespace Dyadic

/-- The bit that a normal value has in front of its fraction of 52 bits. -/
def leadingBit : Nat := 0x10000000000000

/-- The value coded by the exponent field and the fraction field of a binary64 word. -/
def ofFields (biased fraction : Nat) : Dyadic :=
  if biased = 0 then ⟨fraction, -1074⟩ else ⟨fraction + leadingBit, (biased : Int) - 1075⟩

/-- The half width of the rounding interval above and below, in quarters of `2 ^ expo`. Below a
power of two the gap to the next value is half as wide. -/
def quarters (d : Dyadic) : Nat × Nat :=
  if d.mant = leadingBit ∧ -1074 < d.expo then (2, 1) else (2, 2)

end Dyadic

/-- `num / den` and the two ends of the rounding interval as one fraction `x / den`, scaled so
that the decimal grid has step one. -/
structure Scaled where
  low : Nat
  value : Nat
  high : Nat
  den : Nat
  closed : Bool

/-- The value and its rounding interval in units of `10 ^ grid`. -/
def Dyadic.scale (d : Dyadic) (grid : Int) : Scaled :=
  let (above, below) := d.quarters
  let expo := d.expo - 2
  let up := Nat.pow 2 expo.toNat * Nat.pow 10 (-grid).toNat
  let down := Nat.pow 2 (-expo).toNat * Nat.pow 10 grid.toNat
  { low := (4 * d.mant - below) * up
    value := 4 * d.mant * up
    high := (4 * d.mant + above) * up
    den := down
    closed := d.mant % 2 = 0 }

/-- Whether the grid point `n` lies in the rounding interval. -/
def Scaled.holds (s : Scaled) (n : Nat) : Bool :=
  let x := n * s.den
  if s.closed then s.low ≤ x && x ≤ s.high else s.low < x && x < s.high

/-- The grid point of the interval that is nearest to the value; a tie goes to the even one. -/
def Scaled.best? (s : Scaled) : Option Nat :=
  let floor := s.value / s.den
  let rest := s.value % s.den
  match s.holds floor, s.holds (floor + 1) with
  | true, true =>
    if 2 * rest < s.den ∨ (2 * rest = s.den ∧ floor % 2 = 0) then some floor
    else some (floor + 1)
  | true, false => some floor
  | false, true => some (floor + 1)
  | false, false => none

/-- The number of decimal digits of a natural number. -/
def digitCount (n : Nat) : Nat := (Nat.toDigits 10 n).length

/-- The exponent `e` with `10 ^ e ≤ value < 10 ^ (e + 1)`. -/
def Dyadic.magnitude (d : Dyadic) : Int :=
  if 0 ≤ d.expo then (digitCount (d.mant * Nat.pow 2 d.expo.toNat) : Int) - 1
  else
    let den := Nat.pow 2 (-d.expo).toNat
    if den ≤ d.mant then (digitCount (d.mant / den) : Int) - 1
    else
      let shift := digitCount (den / d.mant)
      if den ≤ d.mant * Nat.pow 10 (shift - 1) then 1 - (shift : Int) else -(shift : Int)

/-- Drop zeros at the end of the digits. -/
def Decimal.trimZeros (fuel : Nat) (d : Decimal) : Decimal :=
  match fuel with
  | 0 => d
  | fuel + 1 =>
    if d.digits ≠ 0 ∧ d.digits % 10 = 0 then trimZeros fuel ⟨d.digits / 10, d.expo + 1⟩ else d

/-- Try `count` digits, then one more, and so on for `fuel` attempts. -/
def Dyadic.shortestFrom (d : Dyadic) (count : Nat) : Nat → Decimal
  | 0 => ⟨d.mant, 0⟩
  | fuel + 1 =>
    let grid := d.magnitude + 1 - count
    match (d.scale grid).best? with
    | some n => Decimal.trimZeros 20 ⟨n, grid⟩
    | none => d.shortestFrom (count + 1) fuel

/-- The shortest decimal of a positive value; seventeen digits are always enough. -/
def Dyadic.shortest (d : Dyadic) : Decimal := d.shortestFrom 1 17

/-- How a decimal is written: positional between the two bounds on the number of digits before
the point, scientific outside. -/
structure FloatFormat where
  /-- Least number of digits before the point (zero or negative: zeros after it) that is
  still positional. -/
  least : Int
  /-- Greatest number of digits before the point that is still positional. -/
  greatest : Int

/-- `n` zeros. -/
def zeros (n : Nat) : String := String.ofList (List.replicate n '0')

/-- An exponent, always with its sign. -/
def exponent (e : Int) : String := (if e < 0 then "" else "+") ++ toString e

/-- Write a positive decimal. A positional integer gets a fraction of one zero. -/
def FloatFormat.render (f : FloatFormat) (d : Decimal) : String :=
  let digits := toString d.digits
  let count := digits.length
  let point : Int := count + d.expo
  let split (n : Nat) : String :=
    String.ofList (digits.toList.take n) ++ "." ++ String.ofList (digits.toList.drop n)
  if 0 ≤ d.expo ∧ point ≤ f.greatest then digits ++ zeros d.expo.toNat ++ ".0"
  else if 0 < point ∧ point ≤ f.greatest then split point.toNat
  else if f.least < point ∧ point ≤ 0 then "0." ++ zeros (-point).toNat ++ digits
  else
    let mantissa := if count = 1 then digits else split 1
    mantissa ++ "e" ++ exponent (point - 1)

end ApiSurface.Numeral
