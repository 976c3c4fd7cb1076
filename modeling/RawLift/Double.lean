import RawLift.Decimal

/-!
Binary64 numbers as exact data: a sign and a magnitude `mantissa * 2 ^ exponent` in the one normal
form that the format allows, so that equal numbers are equal values. A decimal is read by rounding
the exact quotient to the nearest magnitude, ties going to the even mantissa.
-/

namespace RawLift

/-- Full-width mantissas, or any mantissa at the least exponent. -/
def IsNormalForm (mantissa : Nat) (exponent : Int) : Prop :=
  mantissa < Nat.pow 2 53 ∧ -1074 ≤ exponent ∧ exponent ≤ 971 ∧
    (Nat.pow 2 52 ≤ mantissa ∨ exponent = -1074)

instance (m : Nat) (e : Int) : Decidable (IsNormalForm m e) :=
  inferInstanceAs (Decidable (_ ∧ _ ∧ _ ∧ _))

structure Magnitude where
  mantissa : Nat
  exponent : Int
  normal : IsNormalForm mantissa exponent
  deriving DecidableEq

inductive Double where
  | nan
  | infinite (negative : Bool)
  | finite (negative : Bool) (magnitude : Magnitude)
  deriving DecidableEq

namespace Magnitude

def zero : Magnitude := ⟨0, -1074, by decide⟩

/-- The exact value as a quotient of natural numbers. -/
def numerator (m : Magnitude) : Nat := m.mantissa * Nat.pow 2 m.exponent.toNat

def denominator (m : Magnitude) : Nat := Nat.pow 2 (-m.exponent).toNat

/-- The quotient rounded to the nearest whole number, a half going to the even one. -/
def roundedQuotient (num den : Nat) : Nat :=
  let q := num / den
  let r := num % den
  if 2 * r < den ∨ (2 * r = den ∧ q % 2 = 0) then q else q + 1

/-- The exponent at which a positive quotient has a mantissa of full width, or the least one. -/
def exponentOf (num den : Nat) : Int :=
  let spread : Int := (num.log2 : Int) - den.log2
  let below := num * Nat.pow 2 (-spread).toNat < den * Nat.pow 2 spread.toNat
  max (-1074) (if below then spread - 53 else spread - 52)

/-- The magnitude nearest to `num / den`; none when that is beyond the greatest one. -/
def ofRatio? (num den : Nat) : Option Magnitude :=
  if num = 0 then some zero
  else
    let e := exponentOf num den
    let m := roundedQuotient (num * Nat.pow 2 (-e).toNat) (den * Nat.pow 2 e.toNat)
    let (m, e) := if m = Nat.pow 2 53 then (Nat.pow 2 52, e + 1) else (m, e)
    if h : IsNormalForm m e then some ⟨m, e, h⟩ else none

/-- The magnitude nearest to `coefficient * 10 ^ exponent`. Decimals far outside the range are
answered by their length, without computing the power. -/
def ofDecimal? (coefficient : Nat) (exponent : Int) : Option Magnitude :=
  let place := exponent + (Decimal.digits coefficient).length
  if coefficient = 0 ∨ place < -330 then some zero
  else if 330 < place then none
  else ofRatio? (coefficient * Nat.pow 10 exponent.toNat) (Nat.pow 10 (-exponent).toNat)

end Magnitude

/-- Decimals beyond the greatest magnitude become infinite. -/
def Double.ofDecimal (negative : Bool) (coefficient : Nat) (exponent : Int) : Double :=
  match Magnitude.ofDecimal? coefficient exponent with
  | some m => .finite negative m
  | none => .infinite negative

end RawLift
