import Mathlib.Data.Int.Log
import Mathlib.Data.Rat.Floor
import Mathlib.Tactic.Ring
import RawLift.Double

/-!
Rounding a quotient to a magnitude depends on the value of the quotient alone, and gives back the
magnitude that the quotient is the exact value of.
-/

namespace RawLift.Magnitude

/-! ### Rounding -/

theorem roundedQuotient_mul_right (num den : Nat) {t : Nat} (pos : 0 < t) :
    roundedQuotient (num * t) (den * t) = roundedQuotient num den := by
  have below : 2 * (num % den * t) < den * t ↔ 2 * (num % den) < den := by
    rw [← Nat.mul_assoc, Nat.mul_lt_mul_right pos]
  have half : 2 * (num % den * t) = den * t ↔ 2 * (num % den) = den := by
    rw [← Nat.mul_assoc, Nat.mul_left_inj (Nat.ne_of_gt pos)]
  simp only [roundedQuotient, Nat.mul_div_mul_right _ _ pos, Nat.mul_mod_mul_right, below, half]

theorem roundedQuotient_mul_self (q : Nat) {den : Nat} (pos : 0 < den) :
    roundedQuotient (q * den) den = q := by
  rw [roundedQuotient, Nat.mul_div_cancel q pos, Nat.mul_mod_left]
  simp [pos]

/-! ### The exponent -/

/-- A power with an integer exponent is a quotient of powers with natural ones. -/
theorem zpow_eq_div {b : ℚ} (nonzero : b ≠ 0) (e : Int) :
    b ^ e = b ^ e.toNat / b ^ (-e).toNat := by
  rw [← zpow_natCast, ← zpow_natCast, ← zpow_sub₀ nonzero]
  congr 1
  omega

section
variable {num den : Nat} (top : num ≠ 0) (bottom : den ≠ 0)
include bottom

theorem div_lt_zpow_iff (s : Int) :
    (num / den : ℚ) < 2 ^ s ↔ num * Nat.pow 2 (-s).toNat < den * Nat.pow 2 s.toNat := by
  have denPos : (0 : ℚ) < den := by exact_mod_cast Nat.pos_of_ne_zero bottom
  rw [zpow_eq_div two_ne_zero, div_lt_div_iff₀ denPos (by positivity), mul_comm _ (den : ℚ)]
  exact_mod_cast Iff.rfl

include top

theorem div_pos_of_ne_zero : (0 : ℚ) < num / den := by
  have numPos : (0 : ℚ) < num := by exact_mod_cast Nat.pos_of_ne_zero top
  have denPos : (0 : ℚ) < den := by exact_mod_cast Nat.pos_of_ne_zero bottom
  exact div_pos numPos denPos

theorem div_lt_zpow_iff_log_lt (s : Int) :
    (num / den : ℚ) < 2 ^ s ↔ Int.log 2 (num / den : ℚ) < s := by
  have := Int.lt_zpow_iff_log_lt (b := 2) (by decide) (x := s) (div_pos_of_ne_zero top bottom)
  exact_mod_cast this

/-- The lengths of the two parts give the exponent of the quotient up to one. -/
theorem log_div_mem_spread :
    Int.log 2 (num / den : ℚ) < (num.log2 : Int) - den.log2 + 1 ∧
      (num.log2 : Int) - den.log2 - 1 ≤ Int.log 2 (num / den : ℚ) := by
  generalize hNum : num.log2 = m
  generalize hDen : den.log2 = n
  obtain ⟨numLow, numHigh⟩ := (Nat.log2_eq_iff top).mp hNum
  obtain ⟨denLow, denHigh⟩ := (Nat.log2_eq_iff bottom).mp hDen
  constructor
  · rw [← div_lt_zpow_iff_log_lt top bottom, div_lt_zpow_iff bottom]
    calc num * 2 ^ (-((m : Int) - n + 1)).toNat
        < 2 ^ (m + 1) * 2 ^ (-((m : Int) - n + 1)).toNat := by gcongr
      _ = 2 ^ n * 2 ^ ((m : Int) - n + 1).toNat := by
        rw [← Nat.pow_add, ← Nat.pow_add]
        congr 1
        omega
      _ ≤ den * 2 ^ ((m : Int) - n + 1).toNat := by gcongr
  · rw [← not_lt, ← div_lt_zpow_iff_log_lt top bottom, div_lt_zpow_iff bottom, not_lt]
    calc den * 2 ^ ((m : Int) - n - 1).toNat
        ≤ 2 ^ (n + 1) * 2 ^ ((m : Int) - n - 1).toNat := by gcongr
      _ = 2 ^ m * 2 ^ (-((m : Int) - n - 1)).toNat := by
        rw [← Nat.pow_add, ← Nat.pow_add]
        congr 1
        omega
      _ ≤ num * 2 ^ (-((m : Int) - n - 1)).toNat := by gcongr

theorem exponentOf_eq : exponentOf num den = max (-1074) (Int.log 2 (num / den : ℚ) - 52) := by
  obtain ⟨high, low⟩ := log_div_mem_spread top bottom
  have below := div_lt_zpow_iff_log_lt top bottom ((num.log2 : Int) - den.log2)
  rw [div_lt_zpow_iff bottom] at below
  simp only [exponentOf, below]
  split <;> congr 1 <;> omega

end

/-- Extending a quotient does not change the magnitude nearest to it. -/
theorem ofRatio?_mul_right (num : Nat) {den t : Nat} (bottom : den ≠ 0) (pos : 0 < t) :
    ofRatio? (num * t) (den * t) = ofRatio? num den := by
  have nonzero : t ≠ 0 := Nat.ne_of_gt pos
  by_cases top : num = 0
  · simp [ofRatio?, top]
  have sameExponent : exponentOf (num * t) (den * t) = exponentOf num den := by
    have sameValue : ((num * t : Nat) / (den * t : Nat) : ℚ) = num / den := by
      push_cast
      exact mul_div_mul_right _ _ (by exact_mod_cast nonzero)
    rw [exponentOf_eq (Nat.mul_ne_zero top nonzero) (Nat.mul_ne_zero bottom nonzero), sameValue,
      exponentOf_eq top bottom]
  have sameMantissa (a b : Nat) :
      roundedQuotient (num * t * a) (den * t * b) = roundedQuotient (num * a) (den * b) := by
    rw [Nat.mul_right_comm num, Nat.mul_right_comm den, roundedQuotient_mul_right _ _ pos]
  simp only [ofRatio?, Nat.mul_eq_zero, top, nonzero, or_self, if_false, sameExponent,
    sameMantissa]

/-! ### Exact quotients -/

section
variable {m : Magnitude} (positive : m.mantissa ≠ 0)

theorem denominator_ne_zero (m : Magnitude) : m.denominator ≠ 0 :=
  Nat.ne_of_gt (Nat.two_pow_pos _)

theorem numerator_div_denominator (m : Magnitude) :
    (m.numerator / m.denominator : ℚ) = m.mantissa * 2 ^ m.exponent := by
  rw [zpow_eq_div two_ne_zero, ← mul_div_assoc]
  simp [numerator, denominator]

include positive

theorem numerator_ne_zero : m.numerator ≠ 0 :=
  Nat.mul_ne_zero positive (Nat.ne_of_gt (Nat.two_pow_pos _))

theorem exponentOf_exact : exponentOf m.numerator m.denominator = m.exponent := by
  obtain ⟨narrow, least, -, full⟩ := m.normal
  have width (k : Nat) :
      Int.log 2 (m.numerator / m.denominator : ℚ) < k + m.exponent ↔ m.mantissa < 2 ^ k := by
    have scale : (0 : ℚ) < 2 ^ m.exponent := zpow_pos two_pos _
    rw [← div_lt_zpow_iff_log_lt (numerator_ne_zero positive) m.denominator_ne_zero,
      numerator_div_denominator, zpow_add₀ two_ne_zero, zpow_natCast,
      mul_lt_mul_iff_left₀ scale]
    exact_mod_cast Iff.rfl
  have high := (width 53).mpr narrow
  have low := width 52
  rw [exponentOf_eq (numerator_ne_zero positive) m.denominator_ne_zero]
  rcases full with full | least
  · have := low.not.mpr (Nat.not_lt.mpr full)
    omega
  · omega

/-- The exact value of a magnitude is rounded to that magnitude. -/
theorem ofRatio?_exact : ofRatio? m.numerator m.denominator = some m := by
  have narrow : m.mantissa ≠ Nat.pow 2 53 := Nat.ne_of_lt m.normal.1
  have scaled : m.numerator * Nat.pow 2 (-m.exponent).toNat =
      m.mantissa * (m.denominator * Nat.pow 2 m.exponent.toNat) := by
    simp only [numerator, denominator]
    ring
  have unit : 0 < m.denominator * Nat.pow 2 m.exponent.toNat :=
    Nat.mul_pos (Nat.two_pow_pos _) (Nat.two_pow_pos _)
  simp only [ofRatio?, numerator_ne_zero positive, if_false, exponentOf_exact positive, scaled,
    roundedQuotient_mul_self _ unit, narrow, m.normal, dif_pos]

end

end RawLift.Magnitude
