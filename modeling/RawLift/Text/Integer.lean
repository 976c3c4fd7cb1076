import RawLift.Text.Blank
import RawLift.Text.Digit

/-!
Integers as people type them: blanks around, a sign, digits of any script, and single underscores
between digits. The separator controls are no blanks here.
-/

namespace RawLift.Text

def isMargin (p : CodePoint) : Bool := isWhitespace p && !(0x1C ≤ p.value && p.value ≤ 0x1F)

def trimmed (t : Text) : Text := ((t.dropWhile isMargin).reverse.dropWhile isMargin).reverse

/-- Digits with at most one underscore between two of them. -/
def spacedDigits? : Text → Option (List Nat)
  | [] => none
  | [p] => (decimalDigit? p).map ([·])
  | p :: .char '_' :: rest => do some ((← decimalDigit? p) :: (← spacedDigits? rest))
  | p :: rest => do some ((← decimalDigit? p) :: (← spacedDigits? rest))

def longestTyped : Nat := 4300

def natural? (t : Text) : Option Nat := do
  let ds ← spacedDigits? t
  if longestTyped < ds.length then none else some (ds.foldl (fun n d => 10 * n + d) 0)

def integer? (t : Text) : Option Int :=
  match trimmed t with
  | .char '-' :: rest => (natural? rest).map fun n => -(n : Int)
  | .char '+' :: rest => (natural? rest).map Int.ofNat
  | rest => (natural? rest).map Int.ofNat

end RawLift.Text
