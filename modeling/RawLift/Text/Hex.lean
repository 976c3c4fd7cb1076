import RawLift.Text

/-!
Hexadecimal digits, written in lower case and read in either.
-/

namespace RawLift.Text

def hexDigit (n : Nat) : CodePoint :=
  .char (Char.ofNat (if n < 10 then '0'.toNat + n else 'a'.toNat + (n - 10)))

def hexValue? : CodePoint → Option Nat
  | .char c =>
    if '0' ≤ c ∧ c ≤ '9' then some (c.toNat - '0'.toNat)
    else if 'a' ≤ c ∧ c ≤ 'f' then some (c.toNat - 'a'.toNat + 10)
    else if 'A' ≤ c ∧ c ≤ 'F' then some (c.toNat - 'A'.toNat + 10)
    else none
  | .surrogate _ => none

theorem hexValue?_hexDigit : ∀ n < 16, hexValue? (hexDigit n) = some n := by decide

/-- The lowest `count` hexadecimal digits of a number. -/
def hexDigits : Nat → Nat → Text
  | 0, _ => []
  | count + 1, n => hexDigits count (n / 16) ++ [hexDigit (n % 16)]

end RawLift.Text
