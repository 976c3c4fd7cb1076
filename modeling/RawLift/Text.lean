/-!
Text as a list of code points. A JSON escape can name half of a surrogate pair on its own, which
no `Char` is, so a code point is either a character or one of the 2048 surrogates.
-/

namespace RawLift

inductive CodePoint where
  | char (c : Char)
  | surrogate (index : Fin 2048)
  deriving DecidableEq, Repr, Inhabited

namespace CodePoint

instance : Coe Char CodePoint := ⟨.char⟩

def value : CodePoint → Nat
  | char c => c.toNat
  | surrogate i => 0xD800 + i.val

/-- Numbers above U+10FFFF name no code point and give U+0000. -/
def ofNat (n : Nat) : CodePoint :=
  if h : 0xD800 ≤ n ∧ n < 0xE000 then surrogate ⟨n - 0xD800, by omega⟩ else char (Char.ofNat n)

theorem value_ofNat {n : Nat} (h : n < 0x110000) : (ofNat n).value = n := by
  unfold ofNat
  split
  · simp only [value]; omega
  · have hv : n.isValidChar := by unfold Nat.isValidChar; omega
    rw [value, Char.ofNat, dif_pos hv]; rfl

theorem ofNat_value (p : CodePoint) : ofNat p.value = p := by
  cases p with
  | char c =>
    have valid := c.valid
    simp only [UInt32.isValidChar, Nat.isValidChar] at valid
    have noSurrogate : ¬ (0xD800 ≤ c.toNat ∧ c.toNat < 0xE000) := by
      change ¬ (0xD800 ≤ c.val.toNat ∧ c.val.toNat < 0xE000)
      omega
    rw [value, ofNat, dif_neg noSurrogate, Char.ofNat_toNat]
  | surrogate i =>
    have inRange : 0xD800 ≤ 0xD800 + i.val ∧ 0xD800 + i.val < 0xE000 := by omega
    simp only [value, ofNat, dif_pos inRange, Nat.add_sub_cancel_left]

def isHighSurrogate (p : CodePoint) : Bool := 0xD800 ≤ p.value && p.value < 0xDC00

def isLowSurrogate (p : CodePoint) : Bool := 0xDC00 ≤ p.value && p.value < 0xE000

/-- The character that a high and a low surrogate stand for together. -/
def joined (high low : CodePoint) : CodePoint :=
  ofNat (0x10000 + (high.value - 0xD800) * 0x400 + (low.value - 0xDC00))

end CodePoint

abbrev Text := List CodePoint

namespace Text

instance : LawfulBEq Text := inferInstance

def ofString (s : String) : Text := s.toList.map .char

instance : Coe String Text := ⟨ofString⟩

/-- Surrogates have no character; they show as U+FFFD. -/
def toString (t : Text) : String :=
  String.ofList (t.map fun
    | .char c => c
    | .surrogate _ => '\ufffd')

def join (separator : Text) (parts : List Text) : Text := (parts.intersperse separator).flatten

/-- Replaces each code point by a text of its own. -/
def substitute (f : CodePoint → Text) (t : Text) : Text := t.flatMap f

@[simp] theorem substitute_append (f : CodePoint → Text) (s t : Text) :
    substitute f (s ++ t) = substitute f s ++ substitute f t := List.flatMap_append

end Text

end RawLift
