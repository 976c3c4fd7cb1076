import RawLift.Node
import RawLift.Text.Blank

/-!
HTML for an image: a self-closing `img` tag with quoted attributes. Values are escaped so that none
can end its quotes, and a key of the image is written only if it is a valid attribute name.
-/

namespace RawLift.Markup

def reference : CodePoint → Text
  | .char '&' => "&amp;"
  | .char '<' => "&lt;"
  | .char '>' => "&gt;"
  | .char '"' => "&quot;"
  | .char '\x27' => "&#x27;"
  | p => [p]

def escape (t : Text) : Text := t.substitute reference

@[simp] theorem escape_append (s t : Text) : escape (s ++ t) = escape s ++ escape t :=
  Text.substitute_append reference s t

def isNameCharacter (p : CodePoint) : Bool :=
  !(Text.isWhitespace p || p.value < 0x20 || p.value == 0x7F ||
    p ∈ [.char '"', .char '\x27', .char '<', .char '>', .char '/', .char '='])

def isAttributeName (t : Text) : Bool := !t.isEmpty && t.all isNameCharacter

abbrev Attribute := Text × Text

def attributeText : Attribute → Text
  | (name, value) => .char ' ' :: name ++ .char '=' :: .char '"' :: escape value ++ [.char '"']

/-- Each attribute behind a blank. -/
def attributesText (as : List Attribute) : Text := as.flatMap attributeText

def selfClosing (name : Text) (as : List Attribute) : Text :=
  .char '<' :: name ++ attributesText as ++ [.char ' ', .char '/', .char '>']

/-- An attribute that is left out when its value is empty. -/
def unlessEmpty (name value : Text) : List Attribute :=
  if value.isEmpty then [] else [(name, value)]

end RawLift.Markup

namespace RawLift.Attributes

/-- The attributes that a triple is written as. -/
def markup (a : Attributes) : List Markup.Attribute :=
  Markup.unlessEmpty "id" a.identifier ++
    (if a.classes.isEmpty then []
      else [(Text.ofString "class", Text.join [.char ' '] a.classes)]) ++
    a.pairs.filter fun p => Markup.isAttributeName p.1

/-- The keys left out, for the log; a triple with nothing in it is not looked through. -/
def skippedNames (a : Attributes) : List Text :=
  if a.isEmpty then [] else (a.pairs.map Prod.fst).filter fun k => !Markup.isAttributeName k

def html (a : Attributes) : Text := Markup.attributesText a.markup

/-- Attributes that are missing are written as none. -/
def markupOption (a : Option Attributes) : List Markup.Attribute := (a.map markup).getD []

end RawLift.Attributes
