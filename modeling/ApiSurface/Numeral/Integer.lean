/-!
# Signed integers of 64 bits

Reading of a decimal numeral: an optional sign, then at least one ASCII digit. A numeral whose
value does not fit is refused, so a value that is read is always the exact one.
-/

namespace ApiSurface.Numeral

/-- The value of an ASCII digit. -/
def digit? (c : Char) : Option Nat :=
  if '0' ≤ c ∧ c ≤ '9' then some (c.toNat - '0'.toNat) else none

/-- The value of `acc` followed by the digits of a list that holds nothing else. -/
def digitsFrom? (acc : Nat) : List Char → Option Nat
  | [] => some acc
  | c :: r =>
    match digit? c with
    | some d => digitsFrom? (acc * 10 + d) r
    | none => none

/-- The value of a non-empty list of digits. -/
def natural? : List Char → Option Nat
  | [] => none
  | l@(_ :: _) => digitsFrom? 0 l

/-- The value of a numeral with an optional sign. -/
def signed? : List Char → Option Int
  | '-' :: r => (natural? r).map fun n => -(n : Int)
  | '+' :: r => (natural? r).map fun n => (n : Int)
  | l => (natural? l).map fun n => (n : Int)

/-- Whether a signed word of 64 bits holds the value. -/
def fitsWord (i : Int) : Bool := -9223372036854775808 ≤ i && i < 9223372036854775808

/-- Read a numeral as a signed word of 64 bits. -/
def word? (l : List Char) : Option Int := (signed? l).filter fitsWord

theorem fitsWord_of_word? {l : List Char} {i : Int} (h : word? l = some i) : fitsWord i = true := by
  simp only [word?, Option.filter_eq_some_iff] at h
  exact h.2

theorem signed?_of_word? {l : List Char} {i : Int} (h : word? l = some i) : signed? l = some i := by
  simp only [word?, Option.filter_eq_some_iff] at h
  exact h.1

end ApiSurface.Numeral
