import Mathlib.Data.List.Chain
import RawLift.Json.Printer
import RawLift.Proofs.Json.Reading

/-!
Strings read back. Each code point is written as pieces of its own, and the pieces join to the text
again unless two escapes stand next to each other for the halves of a surrogate pair.
-/

namespace RawLift

namespace CodePoint

theorem value_lt (p : CodePoint) : p.value < 0x110000 := by
  cases p with
  | char c =>
    have valid := c.valid
    simp only [UInt32.isValidChar, Nat.isValidChar] at valid
    change c.val.toNat < 0x110000
    omega
  | surrogate i =>
    rw [value]
    omega

/-- A character beyond U+FFFF is what its two code units are joined to. -/
theorem joined_units {n : Nat} (inRange : n < 0x100000) :
    joined (ofNat (0xD800 + n / 0x400)) (ofNat (0xDC00 + n % 0x400)) = ofNat (0x10000 + n) := by
  have same : 0x10000 + (0xD800 + n / 0x400 - 0xD800) * 0x400 + (0xDC00 + n % 0x400 - 0xDC00) =
      0x10000 + n := by omega
  rw [joined, value_ofNat (by omega), value_ofNat (by omega), same]

end CodePoint

namespace Json

/-! ### Escapes -/

theorem codeUnit?_hexDigits {n : Nat} (short : n < 0x10000) (e : CodePoint) (rest : Text) :
    ∃ shorter, codeUnit? (Text.hexDigits 4 n ++ e :: rest) =
      some ⟨.ofNat n, e :: rest, shorter⟩ := by
  have digit (m : Nat) : Text.hexValue? (Text.hexDigit (m % 16)) = some (m % 16) :=
    Text.hexValue?_hexDigit _ (Nat.mod_lt m (by decide))
  have same : (n / 16 / 16 / 16 % 16 * 16 + n / 16 / 16 % 16) * 256 +
      (n / 16 % 16 * 16 + n % 16) = n := by omega
  refine ⟨by simp [Text.hexDigits], ?_⟩
  simp only [Text.hexDigits, List.nil_append, List.cons_append, codeUnit?, digit,
    Option.bind_eq_bind, Option.bind_some, same]

theorem readEscape_hexDigits (opening : Text) {n : Nat} (short : n < 0x10000) (e : CodePoint)
    (rest : Text) :
    Reads (readEscape opening (.char 'u' :: (Text.hexDigits 4 n ++ e :: rest)))
      (.unit (.ofNat n)) (e :: rest) := by
  obtain ⟨shorter, unit⟩ := codeUnit?_hexDigits short e rest
  rw [readEscape, unit]
  exact ⟨_, rfl⟩

theorem shortEscape?_of_mem : ∀ form ∈ shortForms,
    shortEscape? (.char form.2) = some form.1 ∧ form.2 ≠ 'u' := by decide

theorem readEscape_shortForm (opening : Text) {p : CodePoint} {c : Char}
    (form : (p, c) ∈ shortForms) (rest : Text) :
    Reads (readEscape opening (.char c :: rest)) (.plain p) rest := by
  obtain ⟨escape, noUnit⟩ := shortEscape?_of_mem _ form
  rw [readEscape]
  · rw [escape]
    exact ⟨_, rfl⟩
  · rintro ⟨⟩
    exact noUnit rfl

section
variable {opening s rest : Text} {ps : List Piece} (more : Reads (readPieces opening s) ps rest)
include more

theorem reads_escape {t : Text} {piece : Piece} (escape : Reads (readEscape opening t) piece s) :
    Reads (readPieces opening (.char '\\' :: t)) (piece :: ps) rest := by
  obtain ⟨shorter, read⟩ := more
  obtain ⟨shorter', escape⟩ := escape
  have noQuote : CodePoint.char '\\' ≠ .char '"' := by decide
  rw [readPieces, if_neg noQuote, if_pos rfl, escape]
  simp only [bind, Except.bind, read]
  exact ⟨_, rfl⟩

theorem reads_unitEscape {n : Nat} (short : n < 0x10000) :
    Reads (readPieces opening (unitEscape n ++ s)) (.unit (.ofNat n) :: ps) rest := by
  cases s with
  | nil =>
    obtain ⟨shorter, read⟩ := more
    simp [readPieces] at read
  | cons e s => exact reads_escape more (readEscape_hexDigits opening short e s)

theorem reads_shortForm {p : CodePoint} {c : Char} (form : (p, c) ∈ shortForms) :
    Reads (readPieces opening (.char '\\' :: .char c :: s)) (.plain p :: ps) rest :=
  reads_escape more (readEscape_shortForm opening form s)

theorem reads_plain {p : CodePoint} (quote : p ≠ .char '"') (backslash : p ≠ .char '\\')
    (printed : 0x20 ≤ p.value) : Reads (readPieces opening (p :: s)) (.plain p :: ps) rest := by
  obtain ⟨shorter, read⟩ := more
  rw [readPieces, if_neg quote, if_neg backslash, if_neg (Nat.not_lt.mpr printed), read]
  exact ⟨_, rfl⟩

end

/-! ### Pieces -/

def unitPieces (p : CodePoint) : List Piece :=
  if p.value < 0x10000 then [.unit p]
  else
    let n := p.value - 0x10000
    [.unit (.ofNat (0xD800 + n / 0x400)), .unit (.ofNat (0xDC00 + n % 0x400))]

/-- The pieces that a code point is written as. -/
def pieces (asciiOnly : Bool) (p : CodePoint) : List Piece :=
  match shortForms.lookup p with
  | some _ => [.plain p]
  | none => if p.value < 0x20 ∨ (asciiOnly ∧ 0x7e < p.value) then unitPieces p else [.plain p]

section
variable {opening s rest : Text} {ps : List Piece} (more : Reads (readPieces opening s) ps rest)
include more

theorem reads_escapedUnits (p : CodePoint) :
    Reads (readPieces opening (escapedUnits p ++ s)) (unitPieces p ++ ps) rest := by
  have inRange := p.value_lt
  rw [escapedUnits, unitPieces]
  by_cases short : p.value < 0x10000
  · have unit := reads_unitEscape more short
    rw [if_pos short, if_pos short]
    rwa [CodePoint.ofNat_value] at unit
  · have low := reads_unitEscape more (n := 0xDC00 + (p.value - 0x10000) % 0x400) (by omega)
    have both := reads_unitEscape low (n := 0xD800 + (p.value - 0x10000) / 0x400) (by omega)
    rw [if_neg short, if_neg short]
    rwa [← List.append_assoc] at both

theorem reads_escaped (asciiOnly : Bool) (p : CodePoint) :
    Reads (readPieces opening (escaped asciiOnly p ++ s)) (pieces asciiOnly p ++ ps) rest := by
  rw [escaped, pieces]
  cases short : shortForms.lookup p with
  | some c =>
    obtain ⟨before, after, parts, -⟩ := List.lookup_eq_some_iff.mp short
    have form : (p, c) ∈ shortForms := by simp [parts]
    exact reads_shortForm more form
  | none =>
    have quote : p ≠ .char '"' := by
      rintro rfl
      simp [shortForms] at short
    have backslash : p ≠ .char '\\' := by
      rintro rfl
      simp [shortForms] at short
    simp only
    by_cases escape : p.value < 0x20 ∨ (asciiOnly = true ∧ 0x7e < p.value)
    · rw [if_pos escape, if_pos escape]
      exact reads_escapedUnits more p
    · rw [if_neg escape, if_neg escape]
      rw [not_or, Nat.not_lt] at escape
      exact reads_plain more quote backslash escape.1

end

theorem reads_substitute (asciiOnly : Bool) (opening t rest : Text) :
    Reads (readPieces opening (t.substitute (escaped asciiOnly) ++ .char '"' :: rest))
      (t.flatMap (pieces asciiOnly)) rest := by
  induction t with
  | nil =>
    rw [Text.substitute, List.flatMap_nil, List.nil_append, readPieces, if_pos rfl]
    exact ⟨_, rfl⟩
  | cons p t ih =>
    rw [Text.substitute, List.flatMap_cons, List.append_assoc, List.flatMap_cons]
    exact reads_escaped ih asciiOnly p

/-! ### Joining -/

/-- No high surrogate is directly followed by a low one. -/
def Unpaired (t : Text) : Prop :=
  t.IsChain fun p q => ¬ (p.isHighSurrogate = true ∧ q.isLowSurrogate = true)

instance (t : Text) : Decidable (Unpaired t) := inferInstanceAs (Decidable (List.IsChain _ t))

/-- Nothing to join: the piece in front is no half of a pair with the next. -/
theorem joinPairs_unit {p : CodePoint} {more : List Piece}
    (unpaired : ∀ q rest, more = .unit q :: rest →
      ¬ (p.isHighSurrogate = true ∧ q.isLowSurrogate = true)) :
    joinPairs (.unit p :: more) = p :: joinPairs more := by
  cases more with
  | nil => rfl
  | cons piece more =>
    cases piece with
    | plain q => rfl
    | unit q =>
      have apart := unpaired q more rfl
      rw [← Bool.and_eq_true] at apart
      rw [joinPairs, if_neg apart]

theorem isHighSurrogate_ofNat {n : Nat} (inRange : n < 0x400) :
    (CodePoint.ofNat (0xD800 + n)).isHighSurrogate = true := by
  simp only [CodePoint.isHighSurrogate, CodePoint.value_ofNat (n := 0xD800 + n) (by omega),
    Bool.and_eq_true, decide_eq_true_eq]
  omega

theorem isLowSurrogate_ofNat {n : Nat} (inRange : n < 0x400) :
    (CodePoint.ofNat (0xDC00 + n)).isLowSurrogate = true := by
  simp only [CodePoint.isLowSurrogate, CodePoint.value_ofNat (n := 0xDC00 + n) (by omega),
    Bool.and_eq_true, decide_eq_true_eq]
  omega

theorem joinPairs_unitPieces {p : CodePoint} {more : List Piece}
    (unpaired : ∀ q rest, more = .unit q :: rest →
      ¬ (p.isHighSurrogate = true ∧ q.isLowSurrogate = true)) :
    joinPairs (unitPieces p ++ more) = p :: joinPairs more := by
  have inRange := p.value_lt
  rw [unitPieces]
  by_cases short : p.value < 0x10000
  · rw [if_pos short]
    exact joinPairs_unit unpaired
  · have high := isHighSurrogate_ofNat (n := (p.value - 0x10000) / 0x400) (by omega)
    have low := isLowSurrogate_ofNat (n := (p.value - 0x10000) % 0x400) (by omega)
    have same : 0x10000 + (p.value - 0x10000) = p.value := by omega
    rw [if_neg short]
    simp only [List.cons_append, List.nil_append, joinPairs, high, low, Bool.and_self, if_true,
      CodePoint.joined_units (n := p.value - 0x10000) (by omega), same, CodePoint.ofNat_value]

theorem joinPairs_pieces {asciiOnly : Bool} {p : CodePoint} {more : List Piece}
    (unpaired : asciiOnly = true → ∀ q rest, more = .unit q :: rest →
      ¬ (p.isHighSurrogate = true ∧ q.isLowSurrogate = true)) :
    joinPairs (pieces asciiOnly p ++ more) = p :: joinPairs more := by
  rw [pieces]
  cases shortForms.lookup p with
  | some c => rfl
  | none =>
    simp only
    by_cases escape : p.value < 0x20 ∨ (asciiOnly = true ∧ 0x7e < p.value)
    · rw [if_pos escape]
      apply joinPairs_unitPieces
      intro q rest shape
      rcases escape with control | ⟨ascii, -⟩
      · -- A control character is no surrogate.
        simp only [CodePoint.isHighSurrogate, Bool.and_eq_true, decide_eq_true_eq]
        omega
      · exact unpaired ascii q rest shape
    · rw [if_neg escape]
      rfl

theorem pieces_ne_nil (asciiOnly : Bool) (p : CodePoint) : pieces asciiOnly p ≠ [] := by
  rw [pieces, unitPieces]
  split
  · simp
  · split
    · split <;> simp
    · simp

/-- Only a code point that is a low surrogate itself starts with the unit of one. -/
theorem eq_of_pieces_eq {asciiOnly : Bool} {p q : CodePoint} {rest : List Piece}
    (shape : pieces asciiOnly p = .unit q :: rest) (low : q.isLowSurrogate = true) : q = p := by
  have inRange := p.value_lt
  rw [pieces, unitPieces] at shape
  split at shape
  · simp at shape
  split at shape
  · split at shape
    · injection shape with first
      injection first with first
      exact first.symm
    · -- The first of two units is a high surrogate, and no low one.
      have high := isHighSurrogate_ofNat (n := (p.value - 0x10000) / 0x400) (by omega)
      injection shape with first
      injection first with first
      rw [first] at high
      simp only [CodePoint.isHighSurrogate, CodePoint.isLowSurrogate, Bool.and_eq_true,
        decide_eq_true_eq] at high low
      omega
  · simp at shape

theorem joinPairs_flatMap {asciiOnly : Bool} {t : Text} (unpaired : asciiOnly = true → Unpaired t) :
    joinPairs (t.flatMap (pieces asciiOnly)) = t := by
  induction t with
  | nil => rfl
  | cons p t ih =>
    rw [List.flatMap_cons, joinPairs_pieces, ih]
    · intro ascii
      exact (unpaired ascii).tail
    · rintro ascii q rest shape ⟨high, low⟩
      cases t with
      | nil => simp at shape
      | cons p' t =>
        rw [List.flatMap_cons] at shape
        rcases List.append_eq_cons_iff.mp shape with ⟨empty, -⟩ | ⟨more, first, -⟩
        · exact pieces_ne_nil asciiOnly p' empty
        · obtain rfl := eq_of_pieces_eq first low
          exact (unpaired ascii).rel ⟨high, low⟩

/-- A quoted text is read as that text. -/
theorem reads_quoted {asciiOnly : Bool} {t : Text} (unpaired : asciiOnly = true → Unpaired t)
    (rest : Text) :
    Reads (readString (t.substitute (escaped asciiOnly) ++ .char '"' :: rest)) t rest := by
  obtain ⟨shorter, read⟩ := reads_substitute asciiOnly
    (.char '"' :: (t.substitute (escaped asciiOnly) ++ .char '"' :: rest)) t rest
  rw [readString, read]
  refine ⟨shorter, ?_⟩
  simp only [bind, Except.bind, joinPairs_flatMap unpaired]

end Json

end RawLift
