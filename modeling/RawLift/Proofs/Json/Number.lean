import Mathlib.Data.List.TakeWhile
import RawLift.Proofs.Json.Numeral

/-!
Numbers are written as numerals that stand for them. An integer is its digits; a double is laid out
from its shortest decimal, and neither the place of the point nor the zeros around it change what
the numeral is read as.
-/

namespace RawLift

/-! ### Trailing zeros -/

theorem Double.exists_append_zeros (ds : List Nat) :
    ∃ k, ds = withoutTrailingZeros ds ++ List.replicate k 0 := by
  cases ds with
  | nil => exact ⟨0, rfl⟩
  | cons d ds =>
    have zeros : ∀ b ∈ ds.reverse.takeWhile (· = 0), b = 0 := by
      intro b mem
      simpa using List.mem_takeWhile_imp mem
    have same := congrArg List.reverse
      (List.takeWhile_append_dropWhile (p := (· = 0)) (l := ds.reverse))
    rw [List.reverse_append, List.reverse_reverse, List.eq_replicate_of_mem zeros,
      List.reverse_replicate] at same
    refine ⟨(ds.reverse.takeWhile (· = 0)).length, ?_⟩
    rw [withoutTrailingZeros, List.cons_append, same]

theorem Double.ofDecimal_mul_pow (negative : Bool) (c k : Nat) (e : Int) :
    ofDecimal negative (c * 10 ^ k) e = ofDecimal negative c (e + k) := by
  rw [ofDecimal, ofDecimal, Magnitude.ofDecimal?_mul_pow]

/-- The digits that are kept, with the exponent that this gives them, make up the same decimal. -/
theorem Double.ofDecimal_withoutTrailingZeros (negative : Bool) (c : Nat) (e : Int) :
    ofDecimal negative (Decimal.ofDigits (withoutTrailingZeros (Decimal.digits c)))
      (e + (Decimal.digits c).length - (withoutTrailingZeros (Decimal.digits c)).length) =
        ofDecimal negative c e := by
  obtain ⟨k, zeros⟩ := exists_append_zeros (Decimal.digits c)
  have value := Decimal.ofDigits_digits c
  have length := congrArg List.length zeros
  rw [zeros, Decimal.ofDigits_append_zeros] at value
  rw [List.length_append, List.length_replicate] at length
  have moved : e + (Decimal.digits c).length -
      (withoutTrailingZeros (Decimal.digits c)).length = e + k := by omega
  rw [moved, ← ofDecimal_mul_pow, value]

theorem Double.exists_withoutTrailingZeros_eq_cons {c : Nat} (nonzero : c ≠ 0) :
    ∃ d ds, withoutTrailingZeros (Decimal.digits c) = d :: ds ∧ d ≠ 0 ∧ ∀ x ∈ d :: ds, x < 10 := by
  obtain ⟨d, ds, shape, leading⟩ := Decimal.exists_digits_eq_cons nonzero
  obtain ⟨k, zeros⟩ := exists_append_zeros (Decimal.digits c)
  have small := Decimal.digits_lt_ten c
  rw [zeros, List.forall_mem_append, shape] at small
  rw [shape]
  exact ⟨d, _, rfl, leading, small.1⟩

theorem Double.ofDecimal_of_magnitude? {d : Magnitude.Written} {m : Magnitude}
    (reads : d.magnitude? = some m) (negative : Bool) :
    ofDecimal negative d.coefficient d.exponent = .finite negative m := by
  rw [Magnitude.Written.magnitude?] at reads
  rw [ofDecimal, reads]

namespace Json

/-! ### Numerals that stand for a number -/

/-- The text is that of a numeral, and the numeral is read as the number. -/
def StandsFor (t : Text) (number : Number) : Prop :=
  ∃ n : Numeral, n.Sound ∧ t = n.text ∧ n.number = .ok number

/-- With a fraction or an exponent, what counts is the decimal that all the digits make up. -/
theorem number_of_point {n : Numeral} (point : n.fraction ≠ [] ∨ n.exponent ≠ none) {c k : Nat}
    {e : Int} (coefficient : Decimal.ofDigits (n.whole ++ n.fraction) = c * 10 ^ k)
    (exponent : n.exponent.getD 0 - n.fraction.length + k = e) :
    n.number = .ok (.real (.ofDecimal n.negative c e)) := by
  have double : (n.fraction.isEmpty && n.exponent.isNone) = false := by
    rw [Bool.and_eq_false_iff]
    simpa [Option.isSome_iff_ne_none] using point
  simp only [Numeral.number, double, Bool.false_eq_true, if_false, coefficient,
    Double.ofDecimal_mul_pow, exponent]

/-- An integer of no more digits than are read. -/
def ReadableInt (n : Int) : Prop := (Decimal.digits n.natAbs).length ≤ longestInteger

theorem leads_digits (n : Nat) : Leads (Decimal.digits n) := by
  by_cases zero : n = 0
  · subst zero
    exact .inl (by simp [Decimal.digits])
  · exact .inr (Decimal.exists_digits_eq_cons zero)

theorem standsFor_writtenInt {n : Int} (readable : ReadableInt n) :
    StandsFor (Decimal.writtenInt n) (.int n) := by
  refine ⟨⟨decide (n < 0), Decimal.digits n.natAbs, [], none⟩, ?_, ?_, ?_⟩
  · exact ⟨leads_digits _, Decimal.digits_lt_ten _, by simp⟩
  · cases n <;> simp [Decimal.writtenInt, Numeral.text, Double.sign, fractionText, exponentText,
      Decimal.written, Int.negSucc_lt_zero]
  · have short : ¬ longestInteger < (Decimal.digits n.natAbs).length := Nat.not_lt.mpr readable
    have value : (if n < 0 then -(n.natAbs : Int) else n.natAbs) = n := by
      split <;> omega
    simp only [Numeral.number, List.isEmpty_nil, Option.isNone_none, Bool.and_self, if_true, short,
      if_false, Decimal.ofDigits_digits, decide_eq_true_eq, value]

theorem lt_ten_of_mem_zeros (k : Nat) : ∀ c ∈ List.replicate k 0, c < 10 := by
  intro c mem
  rw [List.eq_of_mem_replicate mem]
  decide

section
variable (negative : Bool) {d : Nat} {ds : List Nat} (leading : d ≠ 0)
  (small : ∀ c ∈ d :: ds, c < 10) (place : Int)
include leading small

theorem standsFor_scientificText :
    StandsFor (Double.sign negative ++ Double.scientificText (d :: ds) place)
      (.real (.ofDecimal negative (Decimal.ofDigits (d :: ds))
        (place + 1 - (d :: ds).length))) := by
  rw [List.forall_mem_cons] at small
  refine ⟨⟨negative, [d], ds, some place⟩, ?_, ?_, ?_⟩
  · exact ⟨.inr ⟨d, [], rfl, leading⟩, by simpa using small.1, small.2⟩
  · cases ds <;> simp [Double.scientificText, Numeral.text, fractionText, exponentText,
      Decimal.writtenDigits]
  · have noZeros : Decimal.ofDigits ([d] ++ ds) = Decimal.ofDigits (d :: ds) * 10 ^ 0 := by simp
    refine number_of_point (by simp) noZeros ?_
    simp

omit leading in
/-- The point comes first, then the zeros in front of the digits. -/
theorem standsFor_positionalText_of_neg (fractional : place < 0) :
    StandsFor (Double.sign negative ++ Double.positionalText (d :: ds) place)
      (.real (.ofDecimal negative (Decimal.ofDigits (d :: ds))
        (place + 1 - (d :: ds).length))) := by
  generalize gap : (-place - 1).toNat = k
  refine ⟨⟨negative, [0], List.replicate k 0 ++ d :: ds, none⟩, ?_, ?_, ?_⟩
  · refine ⟨.inl rfl, lt_ten_of_mem_zeros 1, ?_⟩
    rw [List.forall_mem_append]
    exact ⟨lt_ten_of_mem_zeros k, small⟩
  · simp [Double.positionalText, fractional, Numeral.text, fractionText, exponentText,
      Decimal.writtenDigits, Decimal.digitChar, gap]
  · have leadingZeros : Decimal.ofDigits ([0] ++ (List.replicate k 0 ++ d :: ds)) =
        Decimal.ofDigits (d :: ds) * 10 ^ 0 := by
      rw [Nat.pow_zero, Nat.mul_one]
      exact Decimal.ofDigits_zeros_append (k + 1) (d :: ds)
    refine number_of_point (by simp) leadingZeros ?_
    simp
    omega

/-- The point stands between two of the digits. -/
theorem standsFor_positionalText_of_lt (whole : 0 ≤ place)
    (long : place.toNat + 1 < (d :: ds).length) :
    StandsFor (Double.sign negative ++ Double.positionalText (d :: ds) place)
      (.real (.ofDecimal negative (Decimal.ofDigits (d :: ds))
        (place + 1 - (d :: ds).length))) := by
  have some : (d :: ds).drop (place.toNat + 1) ≠ [] := by
    rw [ne_eq, List.drop_eq_nil_iff]
    omega
  have noFill : place.toNat + 1 - (d :: ds).length = 0 := by omega
  refine ⟨⟨negative, (d :: ds).take (place.toNat + 1), (d :: ds).drop (place.toNat + 1), none⟩,
    ?_, ?_, ?_⟩
  · exact ⟨.inr ⟨d, ds.take place.toNat, rfl, leading⟩,
      fun c mem => small c (List.mem_of_mem_take mem),
      fun c mem => small c (List.mem_of_mem_drop mem)⟩
  · simp only [Double.positionalText, Int.not_lt.mpr whole, if_false, noFill, List.replicate_zero,
      List.append_nil, List.isEmpty_iff, some, Numeral.text, fractionText, exponentText]
  · have noZeros : Decimal.ofDigits
        ((d :: ds).take (place.toNat + 1) ++ (d :: ds).drop (place.toNat + 1)) =
        Decimal.ofDigits (d :: ds) * 10 ^ 0 := by
      rw [List.take_append_drop, Nat.pow_zero, Nat.mul_one]
    refine number_of_point (.inl some) noZeros ?_
    rw [List.length_drop, Option.getD_none]
    omega

/-- The point comes behind the digits and the zeros that fill up to it. -/
theorem standsFor_positionalText_of_le (whole : 0 ≤ place)
    (short : (d :: ds).length ≤ place.toNat + 1) :
    StandsFor (Double.sign negative ++ Double.positionalText (d :: ds) place)
      (.real (.ofDecimal negative (Decimal.ofDigits (d :: ds))
        (place + 1 - (d :: ds).length))) := by
  have all : (d :: ds).take (place.toNat + 1) = d :: ds := List.take_of_length_le short
  have none : (d :: ds).drop (place.toNat + 1) = [] := List.drop_of_length_le short
  generalize fill : place.toNat + 1 - (d :: ds).length = k
  refine ⟨⟨negative, (d :: ds) ++ List.replicate k 0, [0], .none⟩, ?_, ?_, ?_⟩
  · refine ⟨.inr ⟨d, ds ++ List.replicate k 0, rfl, leading⟩, ?_, lt_ten_of_mem_zeros 1⟩
    rw [List.forall_mem_append]
    exact ⟨small, lt_ten_of_mem_zeros k⟩
  · simp only [Double.positionalText, Int.not_lt.mpr whole, if_false, all, none, fill,
      List.isEmpty_nil, if_true, Numeral.text, fractionText, List.cons_ne_nil, exponentText,
      List.append_nil]
  · have trailingZeros : Decimal.ofDigits ((d :: ds) ++ List.replicate k 0 ++ [0]) =
        Decimal.ofDigits (d :: ds) * 10 ^ (k + 1) := by
      rw [← Decimal.ofDigits_append_zeros, List.replicate_succ', List.append_assoc]
    refine number_of_point (by simp) trailingZeros ?_
    rw [List.length_singleton, Option.getD_none]
    omega

theorem standsFor_positionalText :
    StandsFor (Double.sign negative ++ Double.positionalText (d :: ds) place)
      (.real (.ofDecimal negative (Decimal.ofDigits (d :: ds))
        (place + 1 - (d :: ds).length))) := by
  by_cases fractional : place < 0
  · exact standsFor_positionalText_of_neg negative small place fractional
  have whole := Int.not_lt.mp fractional
  by_cases long : place.toNat + 1 < (d :: ds).length
  · exact standsFor_positionalText_of_lt negative leading small place whole long
  · exact standsFor_positionalText_of_le negative leading small place whole (Nat.not_lt.mp long)

end

theorem standsFor_zero (negative : Bool) :
    StandsFor (Double.sign negative ++ Text.ofString "0.0")
      (.real (.finite negative .zero)) := by
  refine ⟨⟨negative, [0], [0], none⟩, ?_, ?_, ?_⟩
  · exact ⟨.inl rfl, by simp, by simp⟩
  · rfl
  · have zero : Decimal.ofDigits ([0] ++ [0]) = 0 * 10 ^ 0 := rfl
    rw [number_of_point (by simp) zero rfl, Double.ofDecimal]
    simp [Magnitude.ofDecimal?]

/-- However a magnitude is laid out, the text is that of a numeral for it. -/
theorem standsFor_written (negative : Bool) (m : Magnitude) :
    StandsFor (Double.finite negative m).written (.real (.finite negative m)) := by
  rw [Double.written, Double.magnitudeText]
  by_cases zero : m.mantissa = 0
  · rw [if_pos zero, Magnitude.eq_zero_of_mantissa_eq_zero zero]
    exact standsFor_zero negative
  rw [if_neg zero]
  have reads := Double.ofDecimal_of_magnitude? (Magnitude.magnitude?_shortest zero) negative
  obtain ⟨d, ds, shape, leading, small⟩ :=
    Double.exists_withoutTrailingZeros_eq_cons (Magnitude.shortest_ne_zero zero)
  rw [← Double.ofDecimal_withoutTrailingZeros, shape] at reads
  have sameExponent : m.shortest.exponent + (Decimal.digits m.shortest.coefficient).length -
      (d :: ds).length = m.shortest.exponent + (Decimal.digits m.shortest.coefficient).length - 1 +
        1 - (d :: ds).length := by omega
  rw [← reads, sameExponent]
  simp only [shape]
  split
  · exact standsFor_positionalText negative leading small _
  · exact standsFor_scientificText negative leading small _

end Json

end RawLift
