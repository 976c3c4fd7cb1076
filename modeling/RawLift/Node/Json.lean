import RawLift.Node

/-!
The JSON form of a node is an object with a tag `t` and, for most kinds, a payload `c`. Decoding
never fails: a value of any other shape becomes a verbatim node and is written back as it is. Only
an image is read part by part, and remembers its value when a part was missing.
-/

namespace RawLift

def tagKey : Text := "t"

def payloadKey : Text := "c"

/-- The tags whose objects carry a payload. -/
inductive Tag where
  | paragraph
  | text
  | rawBlock
  | blockQuote
  | div
  | figure
  | rawInline
  | image
  deriving DecidableEq

namespace Tag

def names : List (Text × Tag) :=
  [("Para", .paragraph), ("Paragraph", .paragraph), ("Str", .text), ("Text", .text),
    ("RawBlock", .rawBlock), ("BlockQuote", .blockQuote), ("Div", .div), ("Figure", .figure),
    ("RawInline", .rawInline), ("Image", .image)]

def ofName? (name : Text) : Option Tag := names.lookup name

end Tag

namespace Whitespace

def name : Whitespace → Text
  | space => "Space"
  | softBreak => "SoftBreak"
  | lineBreak => "LineBreak"

def ofName? (t : Text) : Option Whitespace :=
  [space, softBreak, lineBreak].find? fun w => w.name = t

@[simp] theorem ofName?_name (w : Whitespace) : ofName? w.name = some w := by
  cases w <;> decide

theorem ofName?_eq_some {t : Text} {w : Whitespace} : ofName? t = some w ↔ t = w.name := by
  refine ⟨fun h => ?_, fun h => by rw [h, ofName?_name]⟩
  have : w.name = t := by simpa using List.find?_some h
  exact this.symm

end Whitespace

namespace Value

def string? : Value → Option Text
  | string s => some s
  | _ => none

def array? : Value → Option (List Value)
  | array vs => some vs
  | _ => none

def strings? : Value → Option (List Text)
  | array vs => vs.mapM string?
  | _ => none

def stringPair? : Value → Option (Text × Text)
  | array [string a, string b] => some (a, b)
  | _ => none

end Value

namespace Attributes

/-- The triple `[identifier, [class, ...], [[key, value], ...]]`. -/
def decode? : Value → Option Attributes
  | .array [.string identifier, classes, .array pairs] => do
    some ⟨identifier, ← classes.strings?, ← pairs.mapM Value.stringPair?⟩
  | _ => none

def encode (a : Attributes) : Value :=
  .array [.string a.identifier, .array (a.classes.map .string),
    .array (a.pairs.map fun p => .array [.string p.1, .string p.2])]

/-- Attributes that may be missing. -/
def encodeOption (a : Option Attributes) : Value := (a.map encode).getD (.unwritable .noAttributes)

end Attributes

namespace Node

/-- The url and the title of an image's target, each empty if it is not there as a string. -/
def targetOf (items : List Value) : Text × Text :=
  let parts := (items[2]?.bind Value.array?).getD []
  ((parts[0]?.bind Value.string?).getD [], (parts[1]?.bind Value.string?).getD [])

/-- The payload of an image has all its parts and nothing else. -/
def isWholeImage : List Value → Bool
  | [attributes, .array _, target] =>
    (Attributes.decode? attributes).isSome && target.stringPair?.isSome
  | _ => false

/-- An image from its payload and its decoded alternative text. -/
def imageOf (whole : Value) (order : MemberOrder) (items : List Value) (alt : List Node) : Node :=
  let target := targetOf items
  .image (some ((items[0]?.bind Attributes.decode?).getD {})) alt target.1 target.2
    (if isWholeImage items then none else some whole) order

mutual
def decode : Value → Node
  | .object [(k, v)] =>
    match (if k = tagKey then v.string?.bind Whitespace.ofName? else none) with
    | some w => .whitespace w
    | none => .verbatim (.object [(k, v)])
  | .object [(k, v), (k', v')] =>
    let whole := Value.object [(k, v), (k', v')]
    if k = tagKey ∧ k' = payloadKey then
      (decodePayload? whole .tagFirst v v').getD (.verbatim whole)
    else if k = payloadKey ∧ k' = tagKey then
      (decodePayload? whole .payloadFirst v' v).getD (.verbatim whole)
    else .verbatim whole
  | v => .verbatim v

/-- The node that an object with this tag and payload stands for. -/
def decodePayload? (whole : Value) (order : MemberOrder) (tag : Value) : Value → Option Node
  | .array items =>
    match tag.string? with
    | none => none
    | some name =>
      match Tag.ofName? name with
      | some .paragraph => some (.paragraph name (decodeAll items) order)
      | some .blockQuote => some (.blockQuote (decodeAll items) order)
      | some .div =>
        match items with
        | [attributes, .array children] =>
          (Attributes.decode? attributes).map fun a => .div (some a) (decodeAll children) order
        | _ => none
      | some .figure =>
        match items with
        | [attributes, caption, .array children] =>
          (Attributes.decode? attributes).map fun a =>
            .figure (some a) caption (decodeAll children) order
        | _ => none
      | some .image =>
        match items with
        | first :: .array alt :: rest =>
          some (imageOf whole order (first :: .array alt :: rest) (decodeAll alt))
        | items => some (imageOf whole order items [])
      | some .rawBlock =>
        match items with
        | [.string format, .string content] => some (.rawBlock format content order)
        | _ => none
      | some .rawInline =>
        match items with
        | [.string format, .string content] => some (.rawInline format content order)
        | _ => none
      | _ => none
  | .string content =>
    match tag.string? with
    | none => none
    | some name =>
      match Tag.ofName? name with
      | some .text => some (.text name content order)
      | _ => none
  | _ => none

def decodeAll : List Value → List Node
  | [] => []
  | v :: vs => decode v :: decodeAll vs
end

/-- A JSON array of nodes. -/
def decodeArray? (v : Value) : Option (List Node) := v.array?.map decodeAll

/-- The two members in the order in which they were read. -/
def tagged (order : MemberOrder) (name : Text) (payload : Value) : Value :=
  match order with
  | .tagFirst => .object [(tagKey, .string name), (payloadKey, payload)]
  | .payloadFirst => .object [(payloadKey, payload), (tagKey, .string name)]

/-- The image form; a remembered source takes its place. -/
def imageValue (source : Option Value) (order : MemberOrder) (attributes : Option Attributes)
    (alt : Value) (url title : Text) : Value :=
  source.getD (tagged order "Image"
    (.array [Attributes.encodeOption attributes, alt, .array [.string url, .string title]]))

def encodeHollow : Hollow → Value
  | .paragraph tag order => tagged order tag (.unwritable .noList)
  | .blockQuote order => tagged order "BlockQuote" (.unwritable .noList)
  | .div attributes order =>
    tagged order "Div" (.array [Attributes.encodeOption attributes, .unwritable .noList])
  | .figure attributes caption order =>
    tagged order "Figure"
      (.array [Attributes.encodeOption attributes, caption, .unwritable .noList])
  | .image attributes url title source order =>
    imageValue source order attributes (.unwritable .noList) url title

mutual
def encode : Node → Value
  | paragraph tag content order => tagged order tag (.array (encodeAll content))
  | rawBlock format content order =>
    tagged order "RawBlock" (.array [.string format, .string content])
  | blockQuote children order => tagged order "BlockQuote" (.array (encodeAll children))
  | div attributes children order =>
    tagged order "Div" (.array [Attributes.encodeOption attributes, .array (encodeAll children)])
  | figure attributes caption children order =>
    tagged order "Figure"
      (.array [Attributes.encodeOption attributes, caption, .array (encodeAll children)])
  | text tag content order => tagged order tag (.string content)
  | whitespace shape _ => .object [(tagKey, .string shape.name)]
  | rawInline format content order =>
    tagged order "RawInline" (.array [.string format, .string content])
  | image attributes alt url title source order =>
    imageValue source order attributes (.array (encodeAll alt)) url title
  | verbatim raw => raw
  | hollow shell => encodeHollow shell
  | stray typeName => .unwritable (.notANode typeName)

def encodeAll : List Node → List Value
  | [] => []
  | n :: ns => encode n :: encodeAll ns
end

theorem decodeAll_eq_map (vs : List Value) : decodeAll vs = vs.map decode := by
  induction vs with
  | nil => rfl
  | cons v vs ih => simp [decodeAll, ih]

theorem encodeAll_eq_map (ns : List Node) : encodeAll ns = ns.map encode := by
  induction ns with
  | nil => rfl
  | cons n ns ih => simp [encodeAll, ih]

end Node

end RawLift
