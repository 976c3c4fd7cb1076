import RawLift.Double

/-!
The shortest decimal that reads back as a given magnitude. For each count of digits the two
neighbours of the value on that decimal grid are tried; the first count with a neighbour that reads
back wins, and of two the nearer, a tie going to the even coefficient.
-/

namespace RawLift.Magnitude

/-- A decimal `coefficient * 10 ^ exponent`. -/
structure Written where
  coefficient : Nat
  exponent : Int
  deriving DecidableEq

def Written.magnitude? (d : Written) : Option Magnitude := ofDecimal? d.coefficient d.exponent

/-- The power of ten of the leading digit of a positive value. -/
def leadingPlace (m : Magnitude) : Int :=
  let num := m.numerator
  let den := m.denominator
  if den ≤ num then ((Decimal.digits (num / den)).length : Int) - 1
  else
    let places := (Decimal.digits (den / num)).length
    if den ≤ num * Nat.pow 10 (places - 1) then -((places : Int) - 1) else -(places : Int)

/-- The neighbour that reads back, if one does, among decimals of `count` digits. -/
def neighbour? (m : Magnitude) (count : Nat) : Option Written :=
  let unit : Int := m.leadingPlace - count + 1
  let num := m.numerator * Nat.pow 10 (-unit).toNat
  let den := m.denominator * Nat.pow 10 unit.toNat
  let low : Written := ⟨num / den, unit⟩
  let high : Written := ⟨num / den + 1, unit⟩
  let lowNearer := 2 * (num % den) < den ∨ (2 * (num % den) = den ∧ num / den % 2 = 0)
  let (first, second) := if lowNearer then (low, high) else (high, low)
  if first.magnitude? = some m then some first
  else if second.magnitude? = some m then some second
  else none

/-- The whole value, digit for digit: every magnitude is a finite decimal. -/
def expansion (m : Magnitude) : Written :=
  ⟨m.mantissa * Nat.pow 2 m.exponent.toNat * Nat.pow 5 (-m.exponent).toNat, min 0 m.exponent⟩

/-- Seventeen digits are enough to tell all magnitudes apart; the whole expansion only makes the
function total. -/
def shortest (m : Magnitude) : Written :=
  ((List.range 17).findSome? fun i => m.neighbour? (i + 1)).getD m.expansion

end RawLift.Magnitude
