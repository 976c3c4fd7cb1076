import RawLift.Text.Hex
import RawLift.Text.Printable

/-!
Text quoted for a message: between single quotes, or double ones if it holds a single quote and no
double one. The quote itself, backslashes and all that cannot be shown are escaped.
-/

namespace RawLift.Text

def quoteMark (t : Text) : CodePoint :=
  if CodePoint.char '\x27' ∈ t ∧ CodePoint.char '"' ∉ t then .char '"' else .char '\x27'

def shownIn (quote p : CodePoint) : Text :=
  if p = quote ∨ p = .char '\\' then [.char '\\', p]
  else if p = .char '\t' then ofString "\\t"
  else if p = .char '\n' then ofString "\\n"
  else if p = .char '\r' then ofString "\\r"
  else if isPrintable p then [p]
  else if p.value < 0x100 then ofString "\\x" ++ hexDigits 2 p.value
  else if p.value < 0x10000 then ofString "\\u" ++ hexDigits 4 p.value
  else ofString "\\U" ++ hexDigits 8 p.value

def quoted (t : Text) : Text :=
  let quote := t.quoteMark
  quote :: t.substitute (shownIn quote) ++ [quote]

end RawLift.Text
