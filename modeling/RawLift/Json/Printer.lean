import RawLift.Json
import RawLift.Double.Layout
import RawLift.Text.Hex

/-!
Writing JSON text. A layout fixes the line breaks and the escapes; the order of members is the
value's own. A value that holds an unwritable leaf has no text, and no value has one in a layout
whose indent is too wide to be counted, or for the memory of the machine.
-/

namespace RawLift.Json

/-- Without an indent all is on one line without blanks. -/
structure Layout where
  indent : Option Nat := none
  asciiOnly : Bool := false
  deriving DecidableEq

def unitEscape (n : Nat) : Text := .char '\\' :: .char 'u' :: Text.hexDigits 4 n

/-- Characters beyond U+FFFF are written as the two units of a surrogate pair. -/
def escapedUnits (p : CodePoint) : Text :=
  if p.value < 0x10000 then unitEscape p.value
  else
    let n := p.value - 0x10000
    unitEscape (0xD800 + n / 0x400) ++ unitEscape (0xDC00 + n % 0x400)

def shortForms : List (CodePoint × Char) :=
  [(.char '"', '"'), (.char '\\', '\\'), (.char '\n', 'n'), (.char '\r', 'r'), (.char '\t', 't'),
    (.char '\x08', 'b'), (.char '\x0c', 'f')]

/-- Quotes, backslashes and control characters are always escaped; where only ASCII is allowed, so
is all outside the printable ASCII characters. -/
def escaped (asciiOnly : Bool) (p : CodePoint) : Text :=
  match shortForms.lookup p with
  | some c => [.char '\\', .char c]
  | none =>
    if p.value < 0x20 ∨ (asciiOnly ∧ 0x7e < p.value) then escapedUnits p else [p]

def quoted (asciiOnly : Bool) (t : Text) : Text :=
  .char '"' :: t.substitute (escaped asciiOnly) ++ [.char '"']

namespace Layout

def newline (l : Layout) (depth : Nat) : Text :=
  match l.indent with
  | none => []
  | some width => .char '\n' :: List.replicate (width * depth) (.char ' ')

def colon (l : Layout) : Text := if l.indent.isNone then [.char ':'] else [.char ':', .char ' ']

/-- What an indent is too wide for: to be held in memory, or to be counted at all. -/
inductive Excess where
  | memory
  | count
  deriving DecidableEq

/-- Widths are counted in 64 bits, of which one is for the sign. -/
def countLimit : Nat := Nat.pow 2 63

end Layout

/-- The machine that a text is laid out on, by the first width of indent that there is no memory
for. -/
class Machine where
  memoryLimit : Nat

/-- A machine with memory for every indent that can be counted. -/
@[reducible] def Machine.roomy : Machine := ⟨Layout.countLimit⟩

variable [Machine]

namespace Layout

def excess? (l : Layout) : Option Excess :=
  match l.indent with
  | none => none
  | some width =>
    if countLimit ≤ width then some .count
    else if Machine.memoryLimit ≤ width then some .memory
    else none

/-- There is memory for the indent. -/
def Fits (l : Layout) : Prop := ∀ width ∈ l.indent, width < Machine.memoryLimit

instance (l : Layout) : Decidable l.Fits :=
  inferInstanceAs (Decidable (∀ width ∈ l.indent, width < Machine.memoryLimit))

end Layout

def writtenNumber : Number → Text
  | .int n => Decimal.writtenInt n
  | .real x => x.written

mutual
/-- The text of a value at a nesting depth; an unwritable leaf has none. -/
def valueText (l : Layout) (depth : Nat) : Value → Text
  | .null => "null"
  | .bool true => "true"
  | .bool false => "false"
  | .number n => writtenNumber n
  | .string s => quoted l.asciiOnly s
  | .array [] => "[]"
  | .array (v :: vs) =>
    .char '[' :: l.newline (depth + 1) ++ valueText l (depth + 1) v ++
      elementTexts l (depth + 1) vs ++ l.newline depth ++ [.char ']']
  | .object [] => [.char '\x7b', .char '\x7d']
  | .object ((k, v) :: ms) =>
    .char '\x7b' :: l.newline (depth + 1) ++ quoted l.asciiOnly k ++ l.colon ++
      valueText l (depth + 1) v ++ memberTexts l (depth + 1) ms ++ l.newline depth ++
      [.char '\x7d']
  | .unwritable _ => []

/-- The elements after the first, each behind a comma. -/
def elementTexts (l : Layout) (depth : Nat) : List Value → Text
  | [] => []
  | v :: vs => .char ',' :: l.newline depth ++ valueText l depth v ++ elementTexts l depth vs

/-- The members after the first, each behind a comma. -/
def memberTexts (l : Layout) (depth : Nat) : Members → Text
  | [] => []
  | (k, v) :: ms =>
    .char ',' :: l.newline depth ++ quoted l.asciiOnly k ++ l.colon ++ valueText l depth v ++
      memberTexts l depth ms
end

mutual
/-- The unwritable leaves in written order. -/
def unwritables : Value → List Unwritable
  | .unwritable u => [u]
  | .array vs => unwritableElements vs
  | .object ms => unwritableMembers ms
  | _ => []

def unwritableElements : List Value → List Unwritable
  | [] => []
  | v :: vs => unwritables v ++ unwritableElements vs

def unwritableMembers : Members → List Unwritable
  | [] => []
  | (_, v) :: ms => unwritables v ++ unwritableMembers ms
end

/-- Why a value is not written. -/
inductive WriteFault where
  | leaf (cause : Unwritable)
  | indent (excess : Layout.Excess)
  deriving DecidableEq

/-- What writing fails on: the first leaf that belongs to a tree, else the indent, else the first
leaf of any kind. -/
def obstacle? (l : Layout) (v : Value) : Option WriteFault :=
  let leaves := unwritables v
  ((leaves.find? Unwritable.isInTree).map .leaf).or
    ((l.excess?.map .indent).or (leaves.head?.map .leaf))

def write (l : Layout) (v : Value) : Except WriteFault Text :=
  match obstacle? l v with
  | some fault => .error fault
  | none => .ok (valueText l 0 v)

/-- One line, without blanks, every character as it is. -/
def compact (v : Value) : Text := valueText {} 0 v

end RawLift.Json

namespace RawLift

def Unwritable.message : Unwritable → Text
  | notANode typeName => Text.ofString "Cannot serialize node of type " ++ typeName
  | noList => "'NoneType' object is not iterable"
  | noAttributes => "'NoneType' object has no attribute 'identifier'"
  | unsupported typeName _ =>
    Text.ofString "Object of type " ++ typeName ++ Text.ofString " is not JSON serializable"
  | circular => "Circular reference detected"

namespace Json

def Layout.Excess.message : Layout.Excess → Text
  | memory => []
  | count => "cannot fit 'int' into an index-sized integer"

def WriteFault.message : WriteFault → Text
  | leaf cause => cause.message
  | indent excess => excess.message

end Json

end RawLift
