import RawLift.Double.Shortest

/-!
How a double is laid out in a document: positional notation for leading places in a fixed range,
otherwise one digit before the point and a signed exponent of at least two digits. A positional
number always shows a point, so that it reads back as a double.
-/

namespace RawLift.Double

/-- Positional notation is used for leading places from `least` up to, but not at, `bound`. -/
structure Positional where
  least : Int
  bound : Int

def documentNumbers : Positional := ⟨-4, 16⟩

/-- Drops the zeros at the end of a list of digits, but never the first digit. -/
def withoutTrailingZeros : List Nat → List Nat
  | [] => []
  | d :: ds => d :: (ds.reverse.dropWhile (· = 0)).reverse

def writtenExponent (e : Int) : Text :=
  let ds := Decimal.digits e.natAbs
  let padded := if ds.length < 2 then 0 :: ds else ds
  .char 'e' :: .char (if e < 0 then '-' else '+') :: Decimal.writtenDigits padded

/-- Digits with the point after `place + 1` of them, filled with zeros on either side. -/
def positionalText (ds : List Nat) (place : Int) : Text :=
  if place < 0 then
    (.char '0' :: .char '.' :: Decimal.writtenDigits (List.replicate (-place - 1).toNat 0)) ++
      Decimal.writtenDigits ds
  else
    let whole := place.toNat + 1
    let fraction := ds.drop whole
    Decimal.writtenDigits (ds.take whole ++ List.replicate (whole - ds.length) 0) ++
      .char '.' :: Decimal.writtenDigits (if fraction.isEmpty then [0] else fraction)

def scientificText (ds : List Nat) (place : Int) : Text :=
  let tail := Decimal.writtenDigits (ds.drop 1)
  Decimal.writtenDigits (ds.take 1) ++ (if tail.isEmpty then [] else .char '.' :: tail) ++
    writtenExponent place

def magnitudeText (style : Positional) (m : Magnitude) : Text :=
  if m.mantissa = 0 then Text.ofString "0.0"
  else
    let d := m.shortest
    let ds := Decimal.digits d.coefficient
    let place : Int := d.exponent + ds.length - 1
    let ds := withoutTrailingZeros ds
    if style.least ≤ place ∧ place < style.bound then positionalText ds place
    else scientificText ds place

def sign (negative : Bool) : Text := if negative then [.char '-'] else []

def written : Double → Text
  | nan => Text.ofString "NaN"
  | infinite negative => sign negative ++ Text.ofString "Infinity"
  | finite negative m => sign negative ++ magnitudeText documentNumbers m

end RawLift.Double
