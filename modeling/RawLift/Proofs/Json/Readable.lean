import RawLift.Proofs.Json.Number
import RawLift.Proofs.Json.Quoted
import RawLift.Proofs.Json.Writable

/-!
The values that texts are read as, and their scalars. Objects have distinct keys, integers are of
no more digits than are read, and there is no unwritable leaf.
-/

namespace RawLift

namespace Value

/-- What a text can be read as. -/
inductive Readable : Value → Prop
  | null : Readable .null
  | bool (b : Bool) : Readable (.bool b)
  | int {n : Int} (short : Json.ReadableInt n) : Readable (.number (.int n))
  | real (x : Double) : Readable (.number (.real x))
  | string (s : Text) : Readable (.string s)
  | array {vs : List Value} (items : ∀ v ∈ vs, Readable v) : Readable (.array vs)
  | object {ms : Members} (distinct : ms.keys.Nodup) (members : ∀ m ∈ ms, Readable m.2) :
      Readable (.object ms)

@[simp] theorem readable_array (vs : List Value) : (array vs).Readable ↔ ∀ v ∈ vs, v.Readable := by
  constructor
  · rintro ⟨⟩
    assumption
  · exact .array

@[simp] theorem readable_object (ms : Members) :
    (object ms).Readable ↔ ms.keys.Nodup ∧ ∀ m ∈ ms, m.2.Readable := by
  constructor
  · rintro ⟨⟩
    exact ⟨‹_›, ‹_›⟩
  · rintro ⟨distinct, members⟩
    exact .object distinct members

theorem Readable.isJson {v : Value} (readable : v.Readable) : v.IsJson := by
  induction readable with
  | array items ih => exact (isJson_array _).mpr ih
  | object distinct members ih => exact (isJson_object _).mpr ih
  | _ => rfl

end Value

namespace Json

/-! ### Scalars -/

/-- Marks that no scalar starts with. -/
def otherMarks : List CodePoint :=
  [.char '"', .char '[', .char '\x7b', .char ']', byteOrderMark]

/-- A text that is read as this scalar, whatever comes after the value. -/
structure IsScalar (t : Text) (v : Value) : Prop where
  start : ∃ p s, t = p :: s ∧ p ∉ otherMarks ∧ isBlank p = false
  reads : ∀ rest, Delimited rest → Reads (readScalar (t ++ rest)) v rest

theorem reads_word {word : Text} {v : Value} {rest : Text} (nonempty : word ≠ [])
    (found : (words.find? fun w => w.1.isPrefixOf (word ++ rest)) = some (word, v)) :
    Reads (readScalar (word ++ rest)) v rest := by
  have left : (word ++ rest).drop word.length = rest := List.drop_left
  have shorter : rest.length < (word ++ rest).length := by
    have := List.length_pos_iff.mpr nonempty
    rw [List.length_append]
    omega
  refine ⟨shorter, ?_⟩
  simp only [readScalar, found, left, shorter, dif_pos]

theorem isScalar_null : IsScalar "null" .null :=
  ⟨⟨_, _, rfl, by decide, rfl⟩, fun _ _ => reads_word (by decide) rfl⟩

theorem isScalar_true : IsScalar "true" (.bool true) :=
  ⟨⟨_, _, rfl, by decide, rfl⟩, fun _ _ => reads_word (by decide) rfl⟩

theorem isScalar_false : IsScalar "false" (.bool false) :=
  ⟨⟨_, _, rfl, by decide, rfl⟩, fun _ _ => reads_word (by decide) rfl⟩

theorem isScalar_nan : IsScalar Double.nan.written (.number (.real .nan)) :=
  ⟨⟨_, _, rfl, by decide, rfl⟩, fun _ _ => reads_word (by decide) rfl⟩

theorem isScalar_infinite (negative : Bool) :
    IsScalar (Double.infinite negative).written (.number (.real (.infinite negative))) := by
  cases negative
  · exact ⟨⟨_, _, rfl, by decide, rfl⟩, fun _ _ => reads_word (by decide) rfl⟩
  · exact ⟨⟨_, _, rfl, by decide, rfl⟩, fun _ _ => reads_word (by decide) rfl⟩

/-- What a numeral starts with. -/
def numeralStart (negative : Bool) (d : Nat) : Text :=
  Double.sign negative ++ [.char (Decimal.digitChar d)]

theorem Numeral.Sound.exists_text_eq {n : Numeral} (sound : n.Sound) :
    ∃ d < 10, ∃ s, n.text = numeralStart n.negative d ++ s := by
  obtain ⟨d, more, shape, small⟩ := sound.exists_whole_eq_cons
  refine ⟨d, small,
    Decimal.writtenDigits more ++ (fractionText n.fraction ++ exponentText n.exponent), ?_⟩
  rw [Numeral.text, shape, numeralStart, List.append_assoc]
  rfl

theorem numeralStart_eq_cons (negative : Bool) {d : Nat} (small : d < 10) :
    ∃ p s, numeralStart negative d = p :: s ∧ p ∉ otherMarks ∧ isBlank p = false := by
  have digit : ∀ d < 10, CodePoint.char (Decimal.digitChar d) ∉ otherMarks ∧
      isBlank (.char (Decimal.digitChar d)) = false := by decide
  cases negative with
  | true => exact ⟨_, _, rfl, by decide, rfl⟩
  | false => exact ⟨_, _, rfl, digit d small⟩

theorem numeralStart_not_prefix : ∀ w ∈ words, ∀ negative, ∀ d < 10,
    (numeralStart negative d).length ≤ w.1.length ∧ ¬ numeralStart negative d <+: w.1 := by
  decide

theorem find?_words_eq_none (negative : Bool) {d : Nat} (small : d < 10) (s : Text) :
    (words.find? fun w => w.1.isPrefixOf (numeralStart negative d ++ s)) = none := by
  rw [List.find?_eq_none]
  intro w mem starts
  obtain ⟨shorter, different⟩ := numeralStart_not_prefix w mem negative d small
  rw [List.isPrefixOf_iff_prefix] at starts
  exact different (List.prefix_of_prefix_length_le (List.prefix_append _ s) starts shorter)

theorem isScalar_of_standsFor {t : Text} {number : Number} (stands : StandsFor t number) :
    IsScalar t (.number number) := by
  obtain ⟨n, sound, rfl, value⟩ := stands
  obtain ⟨d, small, s, shape⟩ := sound.exists_text_eq
  constructor
  · obtain ⟨p, more, start, marks⟩ := numeralStart_eq_cons n.negative small
    exact ⟨p, more ++ s, by rw [shape, start, List.cons_append], marks⟩
  · intro rest delimited
    obtain ⟨shorter, taken⟩ := takeNumeral_text sound delimited
    have noWord := find?_words_eq_none n.negative small (s ++ rest)
    rw [← List.append_assoc, ← shape] at noWord
    refine ⟨shorter, ?_⟩
    simp only [readScalar, noWord, taken, value, bind, Except.bind]

theorem isScalar_number {n : Number} (readable : (Value.number n).Readable) :
    IsScalar (writtenNumber n) (.number n) := by
  cases readable with
  | int short => exact isScalar_of_standsFor (standsFor_writtenInt short)
  | real x =>
    cases x with
    | nan => exact isScalar_nan
    | infinite negative => exact isScalar_infinite negative
    | finite negative m => exact isScalar_of_standsFor (standsFor_written negative m)

end Json

end RawLift
