import RawLift.Json.Printer
import RawLift.Text.Blank

/-!
What a run can be told: which paragraphs to unwrap and how, how strict to be about the root of a
document, and how to lay out the result. Values that make no sense cannot be built; an update that
gives one is refused as a whole.
-/

namespace RawLift

/-- Formats name the target of raw markup: not empty, and without whitespace. -/
def IsFormat (t : Text) : Prop := t ≠ [] ∧ t.all fun p => !Text.isWhitespace p

instance (t : Text) : Decidable (IsFormat t) := inferInstanceAs (Decidable (_ ∧ _))

structure Format where
  name : Text
  valid : IsFormat name
  deriving DecidableEq

def Format.html : Format := ⟨"html", by decide⟩

/-- A value that an option cannot take: a text that is no format, an indent below zero, or one that
is not a number. -/
inductive OptionFault where
  | format (given : Value)
  | indent (given : Int)
  | unordered (given : Value)

namespace Format

def ofValue? (v : Value) : Except OptionFault Format :=
  match v with
  | .string t => if h : IsFormat t then .ok ⟨t, h⟩ else .error (.format v)
  | _ => .error (.format v)

end Format

namespace Unwrap

structure Options where
  angle : Bool := true
  images : Bool := true
  requireSpace : Bool := false
  format : Format := .html
  deriving DecidableEq

/-- New values for some of the options. -/
structure Changes where
  angle : Option Bool := none
  images : Option Bool := none
  requireSpace : Option Bool := none
  format : Option Value := none

def Options.updated (o : Options) (c : Changes) : Except OptionFault Options := do
  let format ← match c.format with
    | some v => Format.ofValue? v
    | none => .ok o.format
  .ok ⟨c.angle.getD o.angle, c.images.getD o.images, c.requireSpace.getD o.requireSpace, format⟩

end Unwrap

/-- A strict root has blocks or metadata. -/
structure RootRule where
  strict : Bool := true
  deriving DecidableEq

structure RootRule.Changes where
  strict : Option Bool := none

def RootRule.updated (r : RootRule) (c : RootRule.Changes) : RootRule := ⟨c.strict.getD r.strict⟩

namespace Json.Layout

/-- New values for some parts of a layout; an indent can be set to none. -/
structure Changes where
  indent : Option Value := none
  asciiOnly : Option Bool := none

def indentOf? : Value → Except OptionFault (Option Nat)
  | .null => .ok none
  | .number (.int (.ofNat n)) => .ok (some n)
  | .number (.int (.negSucc n)) => .error (.indent (.negSucc n))
  | .bool b => .ok (some b.toNat)
  | v => .error (.unordered v)

def updated (l : Layout) (c : Changes) : Except OptionFault Layout := do
  let indent ← match c.indent with
    | some v => indentOf? v
    | none => .ok l.indent
  .ok ⟨indent, c.asciiOnly.getD l.asciiOnly⟩

end Json.Layout

end RawLift
