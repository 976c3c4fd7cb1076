import RawLift.Json.Printer
import RawLift.Json.Reader
import RawLift.Proofs.Double.Shortest

/-!
Numbers read back. A number is written as a numeral, and what may follow a value cannot go on with
one, so the longest numeral in front of it is the one that was written.
-/

namespace RawLift

namespace Decimal

theorem digit?_digitChar : ∀ d < 10, digit? (.char (digitChar d)) = some d := by decide

theorem takeDigits_of_noDigit {rest : Text} (stop : ∀ p ∈ rest.head?, digit? p = none) :
    takeDigits rest = ([], rest) := by
  cases rest with
  | nil => rfl
  | cons p rest => rw [takeDigits, stop p rfl]

theorem takeDigits_writtenDigits {ds : List Nat} (small : ∀ d ∈ ds, d < 10) {rest : Text}
    (stop : ∀ p ∈ rest.head?, digit? p = none) :
    takeDigits (writtenDigits ds ++ rest) = (ds, rest) := by
  induction ds with
  | nil => exact takeDigits_of_noDigit stop
  | cons d ds ih =>
    rw [List.forall_mem_cons] at small
    rw [writtenDigits, List.map_cons, List.cons_append, takeDigits, digit?_digitChar d small.1]
    simp only
    rw [← writtenDigits, ih small.2]

theorem exists_digits_eq_cons {n : Nat} (nonzero : n ≠ 0) :
    ∃ d ds, digits n = d :: ds ∧ d ≠ 0 := by
  fun_induction digits n with
  | case1 n small => exact ⟨n, [], rfl, nonzero⟩
  | case2 n large ih =>
    obtain ⟨d, ds, shape, leading⟩ := ih (by omega)
    rw [shape]
    exact ⟨d, _, rfl, leading⟩

theorem ofDigits_append_zeros (ds : List Nat) (k : Nat) :
    ofDigits (ds ++ List.replicate k 0) = ofDigits ds * 10 ^ k := by
  induction k with
  | zero => simp
  | succ k ih =>
    rw [List.replicate_succ', ← List.append_assoc, ofDigits_append_one, ih, Nat.pow_succ,
      Nat.add_zero, Nat.mul_comm 10, Nat.mul_assoc]

theorem ofDigits_zeros_append (k : Nat) (ds : List Nat) :
    ofDigits (List.replicate k 0 ++ ds) = ofDigits ds := by
  induction k with
  | zero => rfl
  | succ k ih => exact ih

end Decimal

namespace Json

/-! ### What follows a value -/

/-- The marks that can follow a value where no blank is written between them. -/
def delimiters : List CodePoint := [.char ',', .char ']', .char '\x7d', .char '\n']

def Delimited (rest : Text) : Prop := ∀ p ∈ rest.head?, p ∈ delimiters

theorem Delimited.noDigit {rest : Text} (delimited : Delimited rest) :
    ∀ p ∈ rest.head?, Decimal.digit? p = none := by
  have noDigits : ∀ p ∈ delimiters, Decimal.digit? p = none := by decide
  intro p head
  exact noDigits p (delimited p head)

/-! ### The parts of a numeral -/

def fractionText (ds : List Nat) : Text :=
  if ds = [] then [] else .char '.' :: Decimal.writtenDigits ds

def exponentText : Option Int → Text
  | none => []
  | some e => Double.writtenExponent e

theorem exists_writtenExponent_eq (e : Int) :
    ∃ ds, Double.writtenExponent e =
        .char 'e' :: .char (if e < 0 then '-' else '+') :: Decimal.writtenDigits ds ∧
      ds ≠ [] ∧ (∀ d ∈ ds, d < 10) ∧ Decimal.ofDigits ds = e.natAbs := by
  have small := Decimal.digits_lt_ten e.natAbs
  have same := Decimal.ofDigits_digits e.natAbs
  refine ⟨_, rfl, ?_⟩
  split
  · refine ⟨by simp, ?_, same⟩
    rw [List.forall_mem_cons]
    exact ⟨by decide, small⟩
  · next long =>
    refine ⟨?_, small, same⟩
    intro empty
    simp [empty] at long

section
variable {rest : Text} (delimited : Delimited rest)
include delimited

theorem takeExponent_of_delimited : takeExponent rest = (none, rest) := by
  have noMark : ∀ p ∈ delimiters, ¬ (p = .char 'e' ∨ p = .char 'E') := by decide
  cases rest with
  | nil => rfl
  | cons p rest => simp [takeExponent, noMark p (delimited p rfl)]

theorem takeExponent_writtenExponent (e : Int) :
    takeExponent (Double.writtenExponent e ++ rest) = (some e, rest) := by
  obtain ⟨ds, shape, some, small, same⟩ := exists_writtenExponent_eq e
  have digits := Decimal.takeDigits_writtenDigits small delimited.noDigit
  have sign (s : Text) :
      takeSign (.char (if e < 0 then '-' else '+') :: s) = (decide (e < 0), s) := by
    by_cases negative : e < 0 <;> simp [takeSign, negative]
  have value : (if e < 0 then -(e.natAbs : Int) else e.natAbs) = e := by
    split <;> omega
  rw [shape, List.cons_append, List.cons_append, takeExponent, sign, digits]
  simp only [true_or, some, ne_eq, not_false_eq_true, and_self, if_true, same, decide_eq_true_eq,
    value]

omit delimited in
theorem takeFraction_of_noPoint (noPoint : rest.head? ≠ some (.char '.')) :
    takeFraction rest = ([], rest) := by
  rw [takeFraction]
  · rintro after rfl
    exact noPoint rfl

theorem takeExponent_exponentText (e : Option Int) :
    takeExponent (exponentText e ++ rest) = (e, rest) := by
  cases e with
  | none => exact takeExponent_of_delimited delimited
  | some e => exact takeExponent_writtenExponent delimited e

theorem noDigit_exponentText (e : Option Int) :
    ∀ p ∈ (exponentText e ++ rest).head?, Decimal.digit? p = none := by
  cases e with
  | none => exact delimited.noDigit
  | some e =>
    rintro p ⟨⟩
    rfl

theorem takeFraction_fractionText {ds : List Nat} (small : ∀ d ∈ ds, d < 10) (e : Option Int) :
    takeFraction (fractionText ds ++ (exponentText e ++ rest)) = (ds, exponentText e ++ rest) := by
  cases ds with
  | nil =>
    rw [fractionText, if_pos rfl, List.nil_append, takeFraction_of_noPoint]
    cases e with
    | some e => simp [exponentText, Double.writtenExponent]
    | none =>
      intro point
      exact absurd (delimited _ point) (by decide)
  | cons d ds =>
    have digits := Decimal.takeDigits_writtenDigits small (noDigit_exponentText delimited e)
    rw [fractionText, if_neg (List.cons_ne_nil d ds), List.cons_append, takeFraction, digits]

theorem noDigit_fractionText (ds : List Nat) (e : Option Int) :
    ∀ p ∈ (fractionText ds ++ (exponentText e ++ rest)).head?, Decimal.digit? p = none := by
  rw [fractionText]
  split
  · exact noDigit_exponentText delimited e
  · rintro p ⟨⟩
    rfl

end

/-! ### Whole numerals -/

/-- A whole part without needless zeros in front. -/
def Leads (ds : List Nat) : Prop := ds = [0] ∨ ∃ d rest, ds = d :: rest ∧ d ≠ 0

theorem takeWhole_writtenDigits {ds : List Nat} (leads : Leads ds) (small : ∀ d ∈ ds, d < 10)
    {rest : Text} (stop : ∀ p ∈ rest.head?, Decimal.digit? p = none) :
    takeWhole (Decimal.writtenDigits ds ++ rest) = (ds, rest) := by
  rcases leads with rfl | ⟨d, more, rfl, nonzero⟩
  · rfl
  · have noZero : ∀ d < 10, d ≠ 0 → Decimal.digitChar d ≠ '0' := by decide
    rw [takeWhole, Decimal.takeDigits_writtenDigits small stop]
    rintro after shape
    injection shape with first
    injection first with first
    exact noZero d (small d List.mem_cons_self) nonzero first

namespace Numeral

/-- A numeral as it stands in a text. -/
def text (n : Numeral) : Text :=
  Double.sign n.negative ++ (Decimal.writtenDigits n.whole ++
    (fractionText n.fraction ++ exponentText n.exponent))

structure Sound (n : Numeral) : Prop where
  leads : Leads n.whole
  whole : ∀ d ∈ n.whole, d < 10
  fraction : ∀ d ∈ n.fraction, d < 10

theorem Sound.exists_whole_eq_cons {n : Numeral} (sound : n.Sound) :
    ∃ d rest, n.whole = d :: rest ∧ d < 10 := by
  rcases sound.leads with zero | ⟨d, rest, shape, -⟩
  · exact ⟨0, [], zero, by decide⟩
  · exact ⟨d, rest, shape, sound.whole d (by simp [shape])⟩

end Numeral

theorem takeMinus_text {n : Numeral} (sound : n.Sound) (rest : Text) :
    takeMinus (n.text ++ rest) = (n.negative, Decimal.writtenDigits n.whole ++
      (fractionText n.fraction ++ (exponentText n.exponent ++ rest))) := by
  obtain ⟨d, more, shape, small⟩ := sound.exists_whole_eq_cons
  have noMinus : ∀ d < 10, Decimal.digitChar d ≠ '-' := by decide
  rw [Numeral.text]
  cases n.negative with
  | true => simp [Double.sign, takeMinus]
  | false =>
    simp only [shape, Double.sign, Bool.false_eq_true, if_false, List.nil_append,
      List.append_assoc]
    rw [takeMinus]
    rintro after same
    injection same with first
    injection first with first
    exact noMinus d small first

/-- What is read from the front of a text is the numeral written there. -/
theorem takeNumeral_text {n : Numeral} (sound : n.Sound) {rest : Text}
    (delimited : Delimited rest) :
    ∃ shorter, takeNumeral (n.text ++ rest) = some ⟨n, rest, shorter⟩ := by
  have minus := takeMinus_text sound rest
  have whole := takeWhole_writtenDigits sound.leads sound.whole
    (noDigit_fractionText delimited n.fraction n.exponent)
  have fraction := takeFraction_fractionText delimited sound.fraction n.exponent
  have exponent := takeExponent_exponentText delimited n.exponent
  obtain ⟨d, more, shape, -⟩ := sound.exists_whole_eq_cons
  have nonempty : n.whole ≠ [] := by simp [shape]
  have shorter : rest.length < (n.text ++ rest).length := by
    simp [Numeral.text, shape, Decimal.writtenDigits]
    omega
  refine ⟨shorter, ?_⟩
  simp only [takeNumeral, minus, whole, fraction, exponent, nonempty, dif_neg, not_false_eq_true]

end Json

end RawLift
