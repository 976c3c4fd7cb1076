import RawLift.Double.Layout
import RawLift.Json
import RawLift.Text.Quoted

/-!
How a value given for an option is shown in the message that refuses it.
-/

namespace RawLift.Value

def shownNumber : Number → Text
  | .int n => Decimal.writtenInt n
  | .real .nan => "nan"
  | .real (.infinite negative) => Double.sign negative ++ Text.ofString "inf"
  | .real x => x.written

def comma : Text := ", "

mutual
def shown : Value → Text
  | .null => "None"
  | .bool true => "True"
  | .bool false => "False"
  | .number n => shownNumber n
  | .string s => s.quoted
  | .array vs => .char '[' :: Text.join comma (shownAll vs) ++ [.char ']']
  | .object ms => .char '\x7b' :: Text.join comma (shownMembers ms) ++ [.char '\x7d']
  | .unwritable _ => "..."

def shownAll : List Value → List Text
  | [] => []
  | v :: vs => shown v :: shownAll vs

def shownMembers : Members → List Text
  | [] => []
  | (k, v) :: ms => (k.quoted ++ Text.ofString ": " ++ shown v) :: shownMembers ms
end

end RawLift.Value
