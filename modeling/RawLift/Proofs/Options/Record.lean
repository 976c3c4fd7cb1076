import Mathlib.Data.Option.Basic
import Mathlib.Logic.Function.Basic
import RawLift.Failure

/-!
Options as records under a rule. A record has a value for each field, also one that options cannot
have, and keywords put other values in the place of some. To update options is to build them anew
from the overridden record, and that can be done just if the record keeps the rule of its class.
-/

namespace RawLift

/-- A class of options `α`, updated by keywords `κ` and told apart by their records `ρ`. Its rule is
about one parameter, for which a record has the value `given`. -/
structure OptionClass (α κ ρ : Type) where
  defaults : α
  update : α → κ → Except OptionFault α
  record : α → ρ
  build : ρ → Except OptionFault α
  override : ρ → κ → ρ
  noKeywords : κ
  merge : κ → κ → κ
  parameter : Text
  given : ρ → Value
  Valid : ρ → Prop
  update_eq : ∀ o k, update o k = build (override (record o) k)
  build_record : ∀ o, build (record o) = .ok o
  build_of_valid : ∀ r, Valid r → ∃ o, build r = .ok o ∧ record o = r
  build_of_not_valid : ∀ r, ¬ Valid r → ∃ fault, build r = .error fault ∧
    fault.report = .validation fault.message (some parameter) (given r)
  override_noKeywords : ∀ r, override r noKeywords = r
  override_merge : ∀ r k later, override r (merge k later) = override (override r k) later

/-! ### Unwrapping -/

theorem isFormat_iff {t : Text} :
    IsFormat t ↔ t ≠ [] ∧ ∀ p ∈ t, Text.isWhitespace p = false := by
  simp [IsFormat]

theorem Format.ofValue?_of_isFormat {t : Text} (valid : IsFormat t) :
    Format.ofValue? (.string t) = .ok ⟨t, valid⟩ := dif_pos valid

theorem Format.ofValue?_of_not_isFormat {v : Value}
    (invalid : ¬ ∃ t, v = .string t ∧ IsFormat t) : Format.ofValue? v = .error (.format v) := by
  cases v with
  | string t => exact dif_neg fun valid => invalid ⟨t, rfl, valid⟩
  | _ => rfl

namespace Unwrap

/-- Both changes at once, the later ones in the place of the earlier. -/
def Changes.merge (c later : Changes) : Changes where
  angle := later.angle.or c.angle
  images := later.images.or c.images
  requireSpace := later.requireSpace.or c.requireSpace
  format := later.format.or c.format

namespace Options

structure Record where
  angle : Bool
  images : Bool
  requireSpace : Bool
  format : Value

namespace Record

def override (r : Record) (c : Changes) : Record where
  angle := c.angle.getD r.angle
  images := c.images.getD r.images
  requireSpace := c.requireSpace.getD r.requireSpace
  format := c.format.getD r.format

/-- The format is a text, not empty and without whitespace. -/
def Valid (r : Record) : Prop :=
  ∃ t, r.format = .string t ∧ t ≠ [] ∧ ∀ p ∈ t, Text.isWhitespace p = false

def build (r : Record) : Except OptionFault Options :=
  (Format.ofValue? r.format).map fun format => ⟨r.angle, r.images, r.requireSpace, format⟩

end Record

def record (o : Options) : Record := ⟨o.angle, o.images, o.requireSpace, .string o.format.name⟩

theorem updated_eq_build (o : Options) (c : Changes) :
    o.updated c = (o.record.override c).build := by
  rw [updated, Record.build, Record.override, record]
  cases c.format with
  | none =>
    rw [Option.getD_none, Format.ofValue?_of_isFormat o.format.valid]
    rfl
  | some v => cases Format.ofValue? v <;> rfl

def optionClass : OptionClass Options Changes Record where
  defaults := {}
  update := updated
  record := record
  build := Record.build
  override := Record.override
  noKeywords := {}
  merge := Changes.merge
  parameter := "raw_format"
  given := Record.format
  Valid := Record.Valid
  update_eq := updated_eq_build
  build_record o := by
    rw [Record.build, record, Format.ofValue?_of_isFormat o.format.valid]
    rfl
  build_of_valid := by
    rintro ⟨angle, images, requireSpace, format⟩ ⟨t, rfl, valid⟩
    rw [Record.build, Format.ofValue?_of_isFormat (isFormat_iff.mpr valid)]
    exact ⟨_, rfl, rfl⟩
  build_of_not_valid r invalid := by
    simp only [Record.Valid, ← isFormat_iff] at invalid
    rw [Record.build, Format.ofValue?_of_not_isFormat invalid]
    exact ⟨_, rfl, rfl⟩
  override_noKeywords r := rfl
  override_merge r c later := by simp only [Record.override, Changes.merge, Option.getD_or]

end Options

end Unwrap

/-! ### Layouts -/

namespace Json.Layout

/-- An indent as a value: a number, or none. -/
def indentValue : Option Int → Value
  | none => .null
  | some n => .number (.int n)

theorem indentOf?_of_neg {n : Int} (neg : n < 0) :
    indentOf? (indentValue (some n)) = .error (.indent n) := by
  obtain ⟨below, rfl⟩ := Int.eq_negSucc_of_lt_zero neg
  rfl

/-- New values for some of the fields. An indent is a number or none. -/
structure Keywords where
  indent : Option (Option Int) := none
  asciiOnly : Option Bool := none

namespace Keywords

def changes (k : Keywords) : Changes := ⟨k.indent.map indentValue, k.asciiOnly⟩

/-- Both keywords at once, the later ones in the place of the earlier. -/
def merge (k later : Keywords) : Keywords where
  indent := later.indent.or k.indent
  asciiOnly := later.asciiOnly.or k.asciiOnly

end Keywords

structure Record where
  indent : Option Int
  asciiOnly : Bool

namespace Record

def override (r : Record) (k : Keywords) : Record where
  indent := k.indent.getD r.indent
  asciiOnly := k.asciiOnly.getD r.asciiOnly

/-- There is no indent, or one that is not below zero. -/
def Valid (r : Record) : Prop := ∀ n ∈ r.indent, 0 ≤ n

def build (r : Record) : Except OptionFault Layout :=
  (indentOf? (indentValue r.indent)).map fun indent => ⟨indent, r.asciiOnly⟩

end Record

def record (l : Layout) : Record := ⟨l.indent.map Int.ofNat, l.asciiOnly⟩

theorem indentOf?_record (l : Layout) : indentOf? (indentValue l.record.indent) = .ok l.indent := by
  rw [record]
  cases l.indent <;> rfl

theorem updated_eq_build (l : Layout) (k : Keywords) :
    l.updated k.changes = (l.record.override k).build := by
  rw [updated, Record.build, Record.override, Keywords.changes]
  cases k.indent with
  | none =>
    rw [Option.getD_none, indentOf?_record]
    rfl
  | some indent =>
    simp only [Option.map_some, Option.getD_some]
    cases indentOf? (indentValue indent) <;> rfl

def optionClass : OptionClass Layout Keywords Record where
  defaults := {}
  update l k := l.updated k.changes
  record := record
  build := Record.build
  override := Record.override
  noKeywords := {}
  merge := Keywords.merge
  parameter := "indent"
  given r := indentValue r.indent
  Valid := Record.Valid
  update_eq := updated_eq_build
  build_record l := by
    rw [Record.build, indentOf?_record]
    rfl
  build_of_valid := by
    rintro ⟨_ | n, asciiOnly⟩ nonneg
    · exact ⟨_, rfl, rfl⟩
    · obtain ⟨width, rfl⟩ := Int.eq_ofNat_of_zero_le (nonneg n rfl)
      exact ⟨_, rfl, rfl⟩
  build_of_not_valid := by
    rintro ⟨indent, asciiOnly⟩ invalid
    obtain ⟨n, rfl, neg⟩ : ∃ n, indent = some n ∧ n < 0 := by simpa [Record.Valid] using invalid
    rw [Record.build, indentOf?_of_neg neg]
    exact ⟨_, rfl, rfl⟩
  override_noKeywords r := rfl
  override_merge r k later := by simp only [Record.override, Keywords.merge, Option.getD_or]

end Json.Layout

end RawLift
