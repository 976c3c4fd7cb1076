import RawLift.Decimal
import RawLift.Text.Hex

/-!
UTF-8. The decoder takes one octet at a time and remembers what the character begun still owes: how
many continuation octets, and the range that the next one must fall in. The range rules out long
forms, surrogates and numbers above U+10FFFF at the first octet that gives them away.
-/

namespace RawLift.Utf8

abbrev Octets := List UInt8

/-- A character whose first octets have been read. -/
structure Pending where
  owed : Nat
  low : UInt8
  high : UInt8
  bits : Nat
  taken : Nat
  deriving DecidableEq

inductive First where
  | whole (value : Nat)
  | opens (p : Pending)
  | invalid
  deriving DecidableEq

def first (b : UInt8) : First :=
  let n := b.toNat
  if n < 0x80 then .whole n
  else if n < 0xC2 then .invalid
  else if n < 0xE0 then .opens ⟨1, 0x80, 0xBF, n - 0xC0, 1⟩
  else if n = 0xE0 then .opens ⟨2, 0xA0, 0xBF, n - 0xE0, 1⟩
  else if n = 0xED then .opens ⟨2, 0x80, 0x9F, n - 0xE0, 1⟩
  else if n < 0xF0 then .opens ⟨2, 0x80, 0xBF, n - 0xE0, 1⟩
  else if n = 0xF0 then .opens ⟨3, 0x90, 0xBF, n - 0xF0, 1⟩
  else if n < 0xF4 then .opens ⟨3, 0x80, 0xBF, n - 0xF0, 1⟩
  else if n = 0xF4 then .opens ⟨3, 0x80, 0x8F, n - 0xF0, 1⟩
  else .invalid

inductive DecodeFault where
  | invalidStart
  | invalidContinuation
  | unexpectedEnd
  deriving DecidableEq

/-- The octets from `start` up to `stop` are no character. -/
structure DecodeError where
  fault : DecodeFault
  octet : UInt8
  start : Nat
  stop : Nat
  deriving DecidableEq

/-- Decodes from position `offset`, after the octets of the pending character. -/
def decodeFrom (offset : Nat) : Option (Pending × UInt8) → Octets → Except DecodeError Text
  | none, [] => .ok []
  | some (p, lead), [] => .error ⟨.unexpectedEnd, lead, offset - p.taken, offset⟩
  | none, b :: rest =>
    match first b with
    | .whole n => (CodePoint.ofNat n :: ·) <$> decodeFrom (offset + 1) none rest
    | .opens p => decodeFrom (offset + 1) (some (p, b)) rest
    | .invalid => .error ⟨.invalidStart, b, offset, offset + 1⟩
  | some (p, lead), b :: rest =>
    if p.low ≤ b ∧ b ≤ p.high then
      let bits := p.bits * 64 + (b.toNat - 0x80)
      if p.owed = 1 then (CodePoint.ofNat bits :: ·) <$> decodeFrom (offset + 1) none rest
      else decodeFrom (offset + 1) (some (⟨p.owed - 1, 0x80, 0xBF, bits, p.taken + 1⟩, lead)) rest
    else .error ⟨.invalidContinuation, lead, offset - p.taken, offset⟩

def decode (octets : Octets) : Except DecodeError Text := decodeFrom 0 none octets

/-- The octets of a code point below 0x110000. -/
def octetsOf (n : Nat) : Octets :=
  if n < 0x80 then [.ofNat n]
  else if n < 0x800 then [.ofNat (0xC0 + n / 0x40), .ofNat (0x80 + n % 0x40)]
  else if n < 0x10000 then
    [.ofNat (0xE0 + n / 0x1000), .ofNat (0x80 + n / 0x40 % 0x40), .ofNat (0x80 + n % 0x40)]
  else
    [.ofNat (0xF0 + n / 0x40000), .ofNat (0x80 + n / 0x1000 % 0x40),
      .ofNat (0x80 + n / 0x40 % 0x40), .ofNat (0x80 + n % 0x40)]

/-- A run of `count` surrogates, which have no octets, from position `start` of the text. -/
structure EncodeError where
  surrogate : Fin 2048
  start : Nat
  count : Nat
  deriving DecidableEq

def leadingSurrogates : Text → Nat
  | .surrogate _ :: rest => leadingSurrogates rest + 1
  | _ => 0

def encodeFrom (offset : Nat) : Text → Except EncodeError Octets
  | [] => .ok []
  | .char c :: rest => (octetsOf c.toNat ++ ·) <$> encodeFrom (offset + 1) rest
  | .surrogate i :: rest => .error ⟨i, offset, leadingSurrogates rest + 1⟩

def encode (t : Text) : Except EncodeError Octets := encodeFrom 0 t

/-! ### Messages -/

def DecodeFault.message : DecodeFault → Text
  | invalidStart => "invalid start byte"
  | invalidContinuation => "invalid continuation byte"
  | unexpectedEnd => "unexpected end of data"

/-- One octet is named by its value, several by their positions alone. -/
def DecodeError.message (e : DecodeError) : Text :=
  let whereAt :=
    if e.stop = e.start + 1 then
      Text.ofString "byte 0x" ++ Text.hexDigits 2 e.octet.toNat ++ Text.ofString " in position " ++
        Decimal.written e.start
    else
      Text.ofString "bytes in position " ++ Decimal.written e.start ++ Text.ofString "-" ++
        Decimal.written (e.stop - 1)
  Text.ofString "'utf-8' codec can't decode " ++ whereAt ++ Text.ofString ": " ++ e.fault.message

def EncodeError.message (e : EncodeError) : Text :=
  let whereAt :=
    if e.count = 1 then
      Text.ofString "character '\\u" ++ Text.hexDigits 4 (0xD800 + e.surrogate.val) ++
        Text.ofString "' in position " ++ Decimal.written e.start
    else
      Text.ofString "characters in position " ++ Decimal.written e.start ++ Text.ofString "-" ++
        Decimal.written (e.start + e.count - 1)
  Text.ofString "'utf-8' codec can't encode " ++ whereAt ++
    Text.ofString ": surrogates not allowed"

end RawLift.Utf8
