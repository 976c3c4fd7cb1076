import RawLift.Json
import RawLift.Text.Hex

/-!
Reading JSON text. Every step returns the text that is left, with the fact that it is shorter, and
a fault carries the text left where it was found, so that its position is what had been consumed.
-/

namespace RawLift.Json

inductive Fault where
  | byteOrderMark
  | expectedValue
  | expectedName
  | expectedColon
  | expectedComma
  | extraData
  | unterminatedString
  | controlCharacter
  | invalidEscape
  | invalidCodePoint
  deriving DecidableEq

inductive ReadError where
  | malformed (fault : Fault) (rest : Text)
  | longInteger (digits : Nat)
  deriving DecidableEq

/-- A result taken from the front of `s`, and the strictly shorter text after it. -/
structure Read (α : Type) (s : Text) where
  value : α
  rest : Text
  shorter : rest.length < s.length

def isBlank : CodePoint → Bool
  | .char c => c == ' ' || c == '\t' || c == '\n' || c == '\r'
  | .surrogate _ => false

def skipBlank (s : Text) : Text := s.dropWhile isBlank

theorem skipBlank_length (s : Text) : (skipBlank s).length ≤ s.length :=
  (List.dropWhile_sublist isBlank).length_le

namespace Read

/-- The same result, taken from a text that is no shorter. -/
def widen {α : Type} {s : Text} (r : Read α s) (t : Text) (h : s.length ≤ t.length) : Read α t :=
  ⟨r.value, r.rest, Nat.lt_of_lt_of_le r.shorter h⟩

def map {α β : Type} {s : Text} (f : α → β) (r : Read α s) : Read β s :=
  ⟨f r.value, r.rest, r.shorter⟩

end Read

/-- Blanks and then the given mark. -/
def mark? (mark : Char) (s : Text) : Option (Read Unit s) :=
  match h : skipBlank s with
  | [] => none
  | p :: rest =>
    if p = .char mark then
      some ⟨(), rest, by
        have := skipBlank_length s
        simp only [h, List.length_cons] at this; omega⟩
    else none

/-! ### Strings -/

/-- Four hexadecimal digits; they cannot end the text, since the string is still open. -/
def codeUnit? : (s : Text) → Option (Read CodePoint s)
  | a :: b :: c :: d :: e :: rest => do
    let high := (← Text.hexValue? a) * 16 + (← Text.hexValue? b)
    let low := (← Text.hexValue? c) * 16 + (← Text.hexValue? d)
    some ⟨.ofNat (high * 256 + low), e :: rest, by simp⟩
  | _ => none

def shortEscape? : CodePoint → Option CodePoint
  | .char '"' => some '"'
  | .char '\\' => some '\\'
  | .char '/' => some '/'
  | .char 'b' => some '\x08'
  | .char 'f' => some '\x0c'
  | .char 'n' => some '\n'
  | .char 'r' => some '\r'
  | .char 't' => some '\t'
  | _ => none

/-- A code point of a string body, by itself or given by its code unit. -/
inductive Piece where
  | plain (p : CodePoint)
  | unit (p : CodePoint)

def Piece.codePoint : Piece → CodePoint
  | plain p => p
  | unit p => p

/-- What follows a backslash. -/
def readEscape (opening : Text) : (s : Text) → Except ReadError (Read Piece s)
  | [] => .error (.malformed .unterminatedString opening)
  | .char 'u' :: rest =>
    match codeUnit? rest with
    | some r => .ok ⟨.unit r.value, r.rest, Nat.lt_trans r.shorter (by simp)⟩
    | none => .error (.malformed .invalidCodePoint (.char 'u' :: rest))
  | p :: rest =>
    match shortEscape? p with
    | some q => .ok ⟨.plain q, rest, by simp⟩
    | none => .error (.malformed .invalidEscape (.char '\\' :: p :: rest))

/-- The body of a string up to its closing quote. `opening` is the text from its opening quote. -/
def readPieces (opening s : Text) : Except ReadError (Read (List Piece) s) :=
  match s with
  | [] => .error (.malformed .unterminatedString opening)
  | p :: rest =>
    if p = .char '"' then .ok ⟨[], rest, Nat.lt_succ_self _⟩
    else if p = .char '\\' then do
      let escape ← readEscape opening rest
      have := escape.shorter
      let more ← readPieces opening escape.rest
      .ok ((more.map (escape.value :: ·)).widen (p :: rest) (Nat.le_succ_of_le (Nat.le_of_lt this)))
    else if p.value < 0x20 then .error (.malformed .controlCharacter (p :: rest))
    else do
      let more ← readPieces opening rest
      .ok ((more.map (.plain p :: ·)).widen (p :: rest) (Nat.le_succ _))
termination_by s.length
decreasing_by
  · exact Nat.lt_succ_of_lt this
  · exact Nat.lt_succ_self _

/-- Two code units in a row that form a surrogate pair stand for one character. -/
def joinPairs : List Piece → Text
  | .unit high :: .unit low :: rest =>
    if high.isHighSurrogate && low.isLowSurrogate then .joined high low :: joinPairs rest
    else high :: joinPairs (.unit low :: rest)
  | piece :: rest => piece.codePoint :: joinPairs rest
  | [] => []

/-- A string from its opening quote on, given the text after that quote. -/
def readString (s : Text) : Except ReadError (Read Text s) := do
  let r ← readPieces (.char '"' :: s) s
  .ok ⟨joinPairs r.value, r.rest, r.shorter⟩

/-! ### Numbers -/

/-- A number as written: a fraction or an exponent makes it a double. -/
structure Numeral where
  negative : Bool
  whole : List Nat
  fraction : List Nat
  exponent : Option Int

/-- Longer integers are refused. -/
def longestInteger : Nat := 4300

def Numeral.number (n : Numeral) : Except ReadError Number :=
  if n.fraction.isEmpty && n.exponent.isNone then
    if longestInteger < n.whole.length then .error (.longInteger n.whole.length)
    else
      let m : Int := Decimal.ofDigits n.whole
      .ok (.int (if n.negative then -m else m))
  else
    let exponent := n.exponent.getD 0 - n.fraction.length
    .ok (.real (.ofDecimal n.negative (Decimal.ofDigits (n.whole ++ n.fraction)) exponent))

/-- A leading zero stands alone. -/
def takeWhole : Text → List Nat × Text
  | .char '0' :: rest => ([0], rest)
  | s => Decimal.takeDigits s

/-- A point counts only with a digit after it. -/
def takeFraction : Text → List Nat × Text
  | .char '.' :: rest =>
    match Decimal.takeDigits rest with
    | ([], _) => ([], .char '.' :: rest)
    | taken => taken
  | s => ([], s)

def takeSign : Text → Bool × Text
  | .char '-' :: rest => (true, rest)
  | .char '+' :: rest => (false, rest)
  | s => (false, s)

/-- An exponent counts only with a digit in it. -/
def takeExponent : Text → Option Int × Text
  | [] => (none, [])
  | mark :: rest =>
    let sign := takeSign rest
    let taken := Decimal.takeDigits sign.2
    if (mark = .char 'e' ∨ mark = .char 'E') ∧ taken.1 ≠ [] then
      let n : Int := Decimal.ofDigits taken.1
      (some (if sign.1 then -n else n), taken.2)
    else (none, mark :: rest)

theorem takeWhole_shorter {s : Text} (h : (takeWhole s).1 ≠ []) :
    (takeWhole s).2.length < s.length := by
  unfold takeWhole at h ⊢
  split
  · simp
  · rename_i hs
    have := Decimal.takeDigits_length s
    simp only [] at h
    have : 0 < (Decimal.takeDigits s).1.length := List.length_pos_iff.2 h
    omega

theorem takeFraction_length (s : Text) : (takeFraction s).2.length ≤ s.length := by
  unfold takeFraction
  split
  · rename_i rest
    have := Decimal.takeDigits_length rest
    split
    · simp
    · simp only [List.length_cons]; omega
  · simp

theorem takeSign_length (s : Text) : (takeSign s).2.length ≤ s.length := by
  unfold takeSign; split <;> simp

theorem takeExponent_length (s : Text) : (takeExponent s).2.length ≤ s.length := by
  cases s with
  | nil => simp [takeExponent]
  | cons mark rest =>
    have := takeSign_length rest
    have := Decimal.takeDigits_length (takeSign rest).2
    simp only [takeExponent]
    split <;> simp only [List.length_cons] <;> omega

def takeMinus : Text → Bool × Text
  | .char '-' :: rest => (true, rest)
  | s => (false, s)

theorem takeMinus_length (s : Text) : (takeMinus s).2.length ≤ s.length := by
  unfold takeMinus; split <;> simp

/-- The longest numeral that a text starts with. -/
def takeNumeral (s : Text) : Option (Read Numeral s) :=
  if h : (takeWhole (takeMinus s).2).1 = [] then none
  else
    let sign := takeMinus s
    let whole := takeWhole sign.2
    let fraction := takeFraction whole.2
    let exponent := takeExponent fraction.2
    some ⟨⟨sign.1, whole.1, fraction.1, exponent.1⟩, exponent.2,
      Nat.lt_of_le_of_lt
        (Nat.le_trans (takeExponent_length fraction.2) (takeFraction_length whole.2))
        (Nat.lt_of_lt_of_le (takeWhole_shorter h) (takeMinus_length s))⟩

/-! ### Values -/

/-- The words that stand for a value. -/
def words : List (Text × Value) :=
  [("null", .null), ("true", .bool true), ("false", .bool false), ("NaN", .number (.real .nan)),
    ("Infinity", .number (.real (.infinite false))),
    ("-Infinity", .number (.real (.infinite true)))]

/-- A word or a number, whichever the text starts with. -/
def readScalar (s : Text) : Except ReadError (Read Value s) :=
  match words.find? fun w => w.1.isPrefixOf s with
  | some (word, value) =>
    if h : (s.drop word.length).length < s.length then .ok ⟨value, s.drop word.length, h⟩
    else .error (.malformed .expectedValue s)
  | none =>
    match takeNumeral s with
    | some r => do .ok ⟨.number (← r.value.number), r.rest, r.shorter⟩
    | none => .error (.malformed .expectedValue s)

mutual
def readValue (s : Text) : Except ReadError (Read Value s) :=
  match s with
  | [] => .error (.malformed .expectedValue [])
  | p :: rest =>
    have := skipBlank_length rest
    if p = .char '"' then do
      let r ← readString rest
      .ok ((r.map .string).widen (p :: rest) (by simp))
    else if p = .char '[' then
      match mark? ']' rest with
      | some r => .ok ((r.map fun _ => .array []).widen (p :: rest) (by simp))
      | none => do
        let r ← readElements (skipBlank rest)
        .ok ((r.map .array).widen (p :: rest) (by simp only [List.length_cons]; omega))
    else if p = .char '\x7b' then
      match mark? '\x7d' rest with
      | some r => .ok ((r.map fun _ => .object []).widen (p :: rest) (by simp))
      | none => do
        let r ← readMembers (skipBlank rest)
        .ok ((r.map fun pairs => .object (Members.ofPairs pairs)).widen (p :: rest)
          (by simp only [List.length_cons]; omega))
    else readScalar (p :: rest)
termination_by (s.length, 0)
decreasing_by all_goals apply Prod.Lex.left; simp only [List.length_cons]; omega

/-- The elements of an array, from one of them up to the closing bracket. -/
def readElements (s : Text) : Except ReadError (Read (List Value) s) := do
  let first ← readValue s
  have := first.shorter
  match mark? ']' first.rest with
  | some close => .ok ((close.map fun _ => [first.value]).widen s (by omega))
  | none =>
    match mark? ',' first.rest with
    | some comma => do
      have := comma.shorter
      have := skipBlank_length comma.rest
      let more ← readElements (skipBlank comma.rest)
      .ok ((more.map (first.value :: ·)).widen s (by omega))
    | none => .error (.malformed .expectedComma (skipBlank first.rest))
termination_by (s.length, 1)
decreasing_by
  · apply Prod.Lex.right; omega
  · apply Prod.Lex.left; omega

/-- The members of an object, from one of them up to the closing brace. -/
def readMembers (s : Text) : Except ReadError (Read (List (Text × Value)) s) :=
  match s with
  | [] => .error (.malformed .expectedName [])
  | p :: text => do
    if p ≠ .char '"' then throw (.malformed .expectedName (p :: text))
    let name ← readString text
    have := name.shorter
    match mark? ':' name.rest with
    | none => .error (.malformed .expectedColon (skipBlank name.rest))
    | some colon => do
      have := colon.shorter
      have := skipBlank_length colon.rest
      let value ← readValue (skipBlank colon.rest)
      have := value.shorter
      match mark? '\x7d' value.rest with
      | some close => .ok ((close.map fun _ => [(name.value, value.value)]).widen (p :: text)
          (by simp only [List.length_cons]; omega))
      | none =>
        match mark? ',' value.rest with
        | some comma => do
          have := comma.shorter
          have := skipBlank_length comma.rest
          let more ← readMembers (skipBlank comma.rest)
          .ok ((more.map ((name.value, value.value) :: ·)).widen (p :: text)
            (by simp only [List.length_cons]; omega))
        | none => .error (.malformed .expectedComma (skipBlank value.rest))
termination_by (s.length, 1)
decreasing_by all_goals apply Prod.Lex.left; simp only [List.length_cons]; omega
end

def byteOrderMark : CodePoint := .char '\ufeff'

/-- A text that is one value, with blanks around it. -/
def read (s : Text) : Except ReadError Value := do
  if s.head? = some byteOrderMark then throw (.malformed .byteOrderMark s)
  let r ← readValue (skipBlank s)
  match skipBlank r.rest with
  | [] => .ok r.value
  | rest => .error (.malformed .extraData rest)

/-! ### Messages -/

def Fault.message : Fault → Text
  | byteOrderMark => "Unexpected UTF-8 BOM (decode using utf-8-sig)"
  | expectedValue => "Expecting value"
  | expectedName => "Expecting property name enclosed in double quotes"
  | expectedColon => "Expecting ':' delimiter"
  | expectedComma => "Expecting ',' delimiter"
  | extraData => "Extra data"
  | unterminatedString => "Unterminated string starting at"
  | controlCharacter => "Invalid control character at"
  | invalidEscape => "Invalid \\escape"
  | invalidCodePoint => "Invalid \\uXXXX escape"

/-- Where in a text the given end of it starts: line and column from one, offset from zero. -/
structure Position where
  line : Nat
  column : Nat
  offset : Nat
  deriving DecidableEq, Repr

def positionOf (s rest : Text) : Position :=
  let before := s.take (s.length - rest.length)
  ⟨before.count (.char '\n') + 1,
    (before.reverse.takeWhile (· ≠ .char '\n')).length + 1,
    before.length⟩

def Position.message (p : Position) : Text :=
  Text.ofString "line " ++ Decimal.written p.line ++ Text.ofString " column " ++
    Decimal.written p.column ++ Text.ofString " (char " ++ Decimal.written p.offset ++ [.char ')']

/-- The message for a fault found while reading `s`. -/
def ReadError.message (s : Text) : ReadError → Text
  | malformed fault rest => fault.message ++ Text.ofString ": " ++ (positionOf s rest).message
  | longInteger n =>
    Text.ofString "Exceeds the limit (4300 digits) for integer string conversion: value has " ++
      Decimal.written n ++
      Text.ofString " digits; use sys.set_int_max_str_digits() to increase the limit"

end RawLift.Json
