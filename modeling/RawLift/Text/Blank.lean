import RawLift.Text

/-!
Unicode whitespace, with the four separator controls U+001C to U+001F.
-/

namespace RawLift.Text

def isWhitespace (p : CodePoint) : Bool :=
  let n := p.value
  (0x09 ≤ n && n ≤ 0x0D) || (0x1C ≤ n && n ≤ 0x20) || n == 0x85 || n == 0xA0 || n == 0x1680 ||
    (0x2000 ≤ n && n ≤ 0x200A) || n == 0x2028 || n == 0x2029 || n == 0x202F || n == 0x205F ||
    n == 0x3000

end RawLift.Text
