import RawLift.Double.Shortest
import RawLift.Proofs.Double.Ratio

/-!
The shortest decimal of a magnitude reads back as that magnitude, and so does every decimal of the
same value, with zeros added to its coefficient or taken from it.
-/

namespace RawLift

theorem Decimal.length_digits (n : Nat) : (digits n).length = Nat.log 10 n + 1 := by
  fun_induction digits n with
  | case1 n small => rw [Nat.log_of_lt small, List.length_singleton]
  | case2 n large ih =>
    rw [List.length_append, ih, List.length_singleton,
      Nat.log_of_one_lt_of_le (by decide) (Nat.not_lt.mp large)]

theorem log_mul_pow_ten {c : Nat} (nonzero : c ≠ 0) (k : Nat) :
    Nat.log 10 (c * 10 ^ k) = Nat.log 10 c + k := by
  induction k with
  | zero => simp
  | succ k ih =>
    have nonzero' : c * 10 ^ k ≠ 0 :=
      Nat.mul_ne_zero nonzero (Nat.ne_of_gt (Nat.pow_pos (by decide)))
    rw [pow_succ, ← Nat.mul_assoc, Nat.log_mul_base (by decide) nonzero', ih, Nat.add_assoc]

namespace Magnitude

/-- A power of ten may move between the two parts of a decimal. -/
theorem ofDecimal?_mul_pow (c k : Nat) (e : Int) :
    ofDecimal? (c * 10 ^ k) e = ofDecimal? c (e + k) := by
  by_cases zero : c = 0
  · simp [ofDecimal?, zero]
  have power (n : Nat) : 10 ^ n ≠ 0 := Nat.ne_of_gt (Nat.pow_pos (by decide))
  have samePlace : e + ((Decimal.digits (c * 10 ^ k)).length : Int) =
      e + k + (Decimal.digits c).length := by
    rw [Decimal.length_digits, Decimal.length_digits, log_mul_pow_ten zero]
    push_cast
    ring
  have sameRatio : ofRatio? (c * 10 ^ k * Nat.pow 10 e.toNat) (Nat.pow 10 (-e).toNat) =
      ofRatio? (c * Nat.pow 10 (e + k).toNat) (Nat.pow 10 (-(e + k)).toNat) := by
    -- The part of the power that moves past the point is a factor of both parts of the quotient.
    generalize moved : (-e).toNat - (-(e + k)).toNat = t
    have top : c * 10 ^ k * Nat.pow 10 e.toNat = c * Nat.pow 10 (e + k).toNat * 10 ^ t := by
      simp only [Nat.pow_eq, Nat.mul_assoc, ← Nat.pow_add]
      congr 2
      omega
    have bottom : Nat.pow 10 (-e).toNat = Nat.pow 10 (-(e + k)).toNat * 10 ^ t := by
      simp only [Nat.pow_eq, ← Nat.pow_add]
      congr 1
      omega
    rw [top, bottom]
    exact ofRatio?_mul_right _ (power _) (Nat.pos_of_ne_zero (power t))
  simp only [ofDecimal?, samePlace, sameRatio, Nat.mul_eq_zero, zero, power, or_self]

/-! ### The whole expansion -/

theorem pow_two_le_pow_ten {n k : Nat} (shorter : 7 * n ≤ 23 * k) : 2 ^ n ≤ 10 ^ k := by
  have seventh : (2 ^ n) ^ 7 ≤ (10 ^ k) ^ 7 :=
    calc (2 ^ n) ^ 7 = 2 ^ (7 * n) := by rw [← Nat.pow_mul, Nat.mul_comm]
      _ ≤ 2 ^ (23 * k) := Nat.pow_le_pow_right (by decide) shorter
      _ = (2 ^ 23) ^ k := Nat.pow_mul ..
      _ ≤ (10 ^ 7) ^ k := Nat.pow_le_pow_left (by decide) k
      _ = (10 ^ k) ^ 7 := by rw [← Nat.pow_mul, ← Nat.pow_mul, Nat.mul_comm]
  exact (Nat.pow_le_pow_iff_left (by decide)).mp seventh

section
variable {m : Magnitude} (positive : m.mantissa ≠ 0)
include positive

theorem expansion_ne_zero : m.expansion.coefficient ≠ 0 :=
  Nat.mul_ne_zero (numerator_ne_zero positive) (Nat.ne_of_gt (Nat.pow_pos (by decide)))

/-- The leading digit of a magnitude is far from where decimals are answered by their length. -/
theorem log_expansion_bounds :
    Nat.log 10 m.expansion.coefficient < 312 + (-m.exponent).toNat ∧
      (-m.exponent).toNat ≤ Nat.log 10 m.expansion.coefficient + 327 := by
  obtain ⟨narrow, least, most, -⟩ := m.normal
  generalize below : (-m.exponent).toNat = t
  generalize above : m.exponent.toNat = u
  have parts : m.expansion.coefficient = m.mantissa * 2 ^ u * 5 ^ t := by
    rw [← below, ← above]
    rfl
  have tens : 10 ^ t = 2 ^ t * 5 ^ t := Nat.mul_pow 2 5 t
  constructor
  · apply Nat.log_lt_of_lt_pow (expansion_ne_zero positive)
    calc m.expansion.coefficient
        = m.mantissa * 2 ^ u * 5 ^ t := parts
      _ < 2 ^ 53 * 2 ^ u * 5 ^ t := by gcongr; exact narrow
      _ = 2 ^ (53 + u) * 5 ^ t := by rw [Nat.pow_add]
      _ ≤ 10 ^ 312 * 10 ^ t := by
        have wide : 2 ^ (53 + u) ≤ 10 ^ 312 := pow_two_le_pow_ten (by omega)
        have fives : 5 ^ t ≤ 10 ^ t := Nat.pow_le_pow_left (by decide) t
        exact Nat.mul_le_mul wide fives
      _ = 10 ^ (312 + t) := by rw [Nat.pow_add]
  · rw [← log_mul_pow_ten (expansion_ne_zero positive)]
    apply Nat.le_log_of_pow_le (by decide)
    have twos : 2 ^ t ≤ 10 ^ 327 := pow_two_le_pow_ten (by omega)
    have fives : 5 ^ t ≤ m.expansion.coefficient := by
      rw [parts]
      exact Nat.le_mul_of_pos_left _ (Nat.mul_pos (Nat.pos_of_ne_zero positive)
        (Nat.two_pow_pos u))
    rw [tens, Nat.mul_comm]
    exact Nat.mul_le_mul fives twos

theorem magnitude?_expansion : m.expansion.magnitude? = some m := by
  obtain ⟨high, low⟩ := log_expansion_bounds positive
  have exponent : m.expansion.exponent = min 0 m.exponent := rfl
  have inRange : ¬ (m.expansion.exponent + (Decimal.digits m.expansion.coefficient).length < -330) ∧
      ¬ (330 < m.expansion.exponent + ((Decimal.digits m.expansion.coefficient).length : Int)) := by
    rw [Decimal.length_digits, exponent]
    omega
  have up : m.expansion.exponent.toNat = 0 := by omega
  have down : (-m.expansion.exponent).toNat = (-m.exponent).toNat := by omega
  have tens (t : Nat) : Nat.pow 10 t = Nat.pow 2 t * 5 ^ t := Nat.mul_pow 2 5 t
  have zero : Nat.pow 10 0 = 1 := rfl
  have numerators : m.expansion.coefficient = m.numerator * 5 ^ (-m.exponent).toNat := rfl
  have denominators : Nat.pow 10 (-m.exponent).toNat = m.denominator * 5 ^ (-m.exponent).toNat :=
    Nat.mul_pow 2 5 _
  have fives : 0 < 5 ^ (-m.exponent).toNat := Nat.pow_pos (by decide)
  simp only [Written.magnitude?, ofDecimal?, expansion_ne_zero positive, inRange, or_self, if_false,
    up, down, zero, Nat.mul_one]
  rw [numerators, denominators, ofRatio?_mul_right _ m.denominator_ne_zero fives]
  exact ofRatio?_exact positive

omit positive in
theorem magnitude?_of_neighbour? {count : Nat} {d : Written} (found : m.neighbour? count = some d) :
    d.magnitude? = some m := by
  rw [neighbour?] at found
  split at found
  next first second _ =>
    split at found
    next reads =>
      obtain rfl := Option.some.inj found
      exact reads
    next =>
      split at found
      next reads =>
        obtain rfl := Option.some.inj found
        exact reads
      next => simp at found

/-- Writing a magnitude and reading it back loses nothing. -/
theorem magnitude?_shortest : m.shortest.magnitude? = some m := by
  rw [shortest]
  cases tried : (List.range 17).findSome? fun i => m.neighbour? (i + 1) with
  | none => exact magnitude?_expansion positive
  | some d =>
    obtain ⟨i, -, found⟩ := List.exists_of_findSome?_eq_some tried
    exact magnitude?_of_neighbour? found

theorem shortest_ne_zero : m.shortest.coefficient ≠ 0 := by
  intro none
  have reads := magnitude?_shortest positive
  rw [Written.magnitude?, none] at reads
  obtain rfl : zero = m := by simpa [ofDecimal?] using reads
  exact positive rfl

omit positive in
theorem eq_zero_of_mantissa_eq_zero (empty : m.mantissa = 0) : m = zero := by
  obtain ⟨mantissa, exponent, normal⟩ := m
  obtain rfl : mantissa = 0 := empty
  rcases normal.2.2.2 with full | rfl
  · simp at full
  · rfl

end

end Magnitude

end RawLift
