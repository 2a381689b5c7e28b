import ApiSurface.Numeral.Integer
import ApiSurface.Numeral.Shortest

/-!
# Numbers of the data format

A number is an integer that fits in 64 bits, with or without sign, or a binary64 value.
`Number.read?` accepts the numerals of the data format: no leading zeros, digits on both sides of
a point, and no value beyond the binary64 range.
-/

namespace ApiSurface.Numeral

/-- An integer or a binary64 value. -/
inductive Number where
  | int (value : Int)
  | float (value : Float)
deriving Inhabited, Repr

namespace Number

/-- Numbers are the same when both are integers of one value or both are equal binary64 values. -/
def beq : Number → Number → Bool
  | int a, int b => a == b
  | float a, float b => a == b
  | _, _ => false

instance : BEq Number := ⟨beq⟩

/-- The greatest unsigned word of 64 bits. -/
def maxWord : Nat := 18446744073709551615

/-- A decimal numeral on the way to its value: `significand * 10 ^ exponent`. -/
structure Parts where
  significand : Nat
  exponent : Int

/-- The power of ten that is nearest to `10 ^ n`. -/
def powerOfTen (n : Nat) : Float := Float.ofScientific 1 false n

/-- Scale down in steps of `10 ^ 308` until one division is left. -/
def scaleDown : Nat → Float → Nat → Float
  | 0, f, _ => f
  | fuel + 1, f, n =>
    if n ≤ 308 then f / powerOfTen n
    else if f == 0.0 then f
    else scaleDown fuel (f / powerOfTen 308) (n - 308)

/-- The value of a numeral, computed as the nearest value of the significand followed by one
multiplication or by divisions; `none` past the greatest finite value. -/
def Parts.value? (p : Parts) : Option Float :=
  let f := (UInt64.ofNat p.significand).toFloat
  if 0 ≤ p.exponent then
    if p.exponent ≤ 308 then
      let scaled := f * powerOfTen p.exponent.toNat
      if scaled.isInf then none else some scaled
    else if f == 0.0 then some f else none
  else some (scaleDown 4 f (-p.exponent).toNat)

/-- Take digits into the significand as long as it fits a word. The result is the significand,
the number of digits taken and what follows them. -/
def takeDigits (significand taken : Nat) : List Char → Nat × Nat × List Char
  | [] => (significand, taken, [])
  | c :: r =>
    match digit? c with
    | some d =>
      if significand * 10 + d ≤ maxWord then takeDigits (significand * 10 + d) (taken + 1) r
      else (significand, taken, c :: r)
    | none => (significand, taken, c :: r)

/-- Whether the character is an ASCII digit. -/
def isDigit (c : Char) : Bool := (digit? c).isSome

/-- The greatest exponent that is still counted. -/
def maxExponent : Nat := 2147483647

/-- Read the exponent after its mark. -/
def readExponent (p : Parts) (l : List Char) : Option Float :=
  let (positive, l) := match l with
    | '+' :: r => (true, r)
    | '-' :: r => (false, r)
    | r => (true, r)
  match digitsFrom? 0 l, l with
  | some e, _ :: _ =>
    if e ≤ maxExponent then
      Parts.value? ⟨p.significand, if positive then p.exponent + e else p.exponent - e⟩
    else if positive && p.significand != 0 then none
    else some 0.0
  | _, _ => none

/-- What may follow the digits of a number with a point: nothing or an exponent. -/
def readTail (p : Parts) : List Char → Option Float
  | [] => p.value?
  | 'e' :: r => readExponent p r
  | 'E' :: r => readExponent p r
  | _ => none

/-- Read the digits after the point. Those that no longer fit the significand are skipped. -/
def readFraction (p : Parts) (l : List Char) : Option Float :=
  let (significand, taken, rest) := takeDigits p.significand 0 l
  let skipped := rest.dropWhile isDigit
  if taken = 0 ∧ skipped.length = rest.length then none
  else readTail ⟨significand, p.exponent - taken⟩ skipped

/-- The magnitude of the least signed word of 64 bits. -/
def signBit : Nat := 0x8000000000000000

/-- Read what follows the digits of a number without a point so far. -/
def readAfterDigits (positive : Bool) (p : Parts) : List Char → Option Number
  | [] =>
    if p.exponent = 0 then
      if positive then some (int p.significand)
      else if p.significand = 0 ∨ signBit < p.significand then
        some (float (-(UInt64.ofNat p.significand).toFloat))
      else some (int (-(p.significand : Int)))
    else p.value?.map fun f => float (if positive then f else -f)
  | '.' :: r => (readFraction p r).map fun f => float (if positive then f else -f)
  | 'e' :: r => (readExponent p r).map fun f => float (if positive then f else -f)
  | 'E' :: r => (readExponent p r).map fun f => float (if positive then f else -f)
  | _ => none

/-- Read a numeral without its sign. -/
def readUnsigned (positive : Bool) : List Char → Option Number
  | '0' :: r =>
    match r with
    | c :: _ => if isDigit c then none else readAfterDigits positive ⟨0, 0⟩ r
    | [] => readAfterDigits positive ⟨0, 0⟩ []
  | c :: r =>
    if isDigit c then
      let (significand, _, rest) := takeDigits 0 0 (c :: r)
      let skipped := rest.takeWhile isDigit
      readAfterDigits positive ⟨significand, skipped.length⟩ (rest.dropWhile isDigit)
    else none
  | [] => none

/-- Read a numeral of the data format. -/
def read? : List Char → Option Number
  | '-' :: r => readUnsigned false r
  | l => readUnsigned true l

/-- Binary64 values are positional from five zeros after the point up to sixteen digits before
it. -/
def floatFormat : FloatFormat := ⟨-5, 16⟩

/-- Write a finite binary64 value; a zero keeps its sign. -/
def renderFloat (f : Float) : String :=
  let bits := f.toBits.toNat
  let sign := if signBit ≤ bits then "-" else ""
  let biased := bits / Dyadic.leadingBit % 2048
  let fraction := bits % Dyadic.leadingBit
  if biased = 0 ∧ fraction = 0 then sign ++ "0.0"
  else sign ++ floatFormat.render (Dyadic.ofFields biased fraction).shortest

/-- Write a number. -/
def render : Number → String
  | int i => toString i
  | float f => renderFloat f

end Number

end ApiSurface.Numeral
