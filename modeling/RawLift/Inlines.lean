import RawLift.Node

/-!
The two shapes of inlines that the filter looks for: a text run that starts with `<`, and a single
image. Also the plain text of inlines, which exists only if every one of them is text, a break or
raw markup.
-/

namespace RawLift.Inlines

def angle : CodePoint := .char '<'

/-- The first inline is a text run that starts with `<`. If a space is required it must follow, in
the run itself or as the next inline after a run that is nothing but the `<`. -/
def hasAngleLead (requireSpace : Bool) : List Node → Bool
  | .text _ s _ :: rest =>
    if requireSpace then
      [angle, .char ' '].isPrefixOf s ||
        (s == [angle] && (rest.head?.map Node.isWhitespace).getD false)
    else s.head? == some angle
  | _ => false

/-- What follows the leading run and the whitespace after it. -/
def afterLead? (requireSpace : Bool) (inlines : List Node) : Option (List Node) :=
  if hasAngleLead requireSpace inlines then some (inlines.tail.dropWhile Node.isWhitespace)
  else none

/-- One image, and after it nothing but whitespace. -/
def isSingleImage : List Node → Bool
  | first :: rest => first.isImage && rest.all Node.isWhitespace
  | [] => false

/-- The text that one inline stands for; a blank has none. -/
def plain? : Node → Option Text
  | .text _ s _ => some s
  | .whitespace .softBreak _ | .whitespace .lineBreak _ => some [.char '\n']
  | .rawInline _ s _ => some s
  | _ => none

def flatten? : List Node → Option Text
  | [] => some []
  | n :: ns => do
    let s ← plain? n
    let t ← flatten? ns
    some (s ++ t)

end RawLift.Inlines

namespace RawLift.Node

def isAngleParagraph (requireSpace : Bool) : Node → Bool
  | .paragraph _ content _ => Inlines.hasAngleLead requireSpace content
  | _ => false

def isImageParagraph : Node → Bool
  | .paragraph _ content _ => Inlines.isSingleImage content
  | _ => false

end RawLift.Node
