import RawLift.Proofs.Json.Writable
import RawLift.Proofs.Node.Shape

/-!
Encoding undoes decoding on every value. An image that was read with a part missing comes back
because it remembers its value; all else comes back from the parts of the node.
-/

namespace RawLift

namespace Node

/-- The value of a node, or what turning the node into a value stops at. -/
def encode? (n : Node) : Except Unwritable Value :=
  match n.encode.treeFault? with
  | some fault => .error fault
  | none => .ok n.encode

theorem encode?_eq_ok_iff {n : Node} {v : Value} :
    n.encode? = .ok v ↔ v = n.encode ∧ v.IsData := by
  rw [encode?]
  cases fault : n.encode.treeFault? with
  | none =>
    have data := Value.treeFault?_eq_none_iff.mp fault
    constructor
    · rintro ⟨⟩
      exact ⟨rfl, data⟩
    · rintro ⟨rfl, -⟩
      rfl
  | some f =>
    constructor
    · rintro ⟨⟩
    · rintro ⟨rfl, data⟩
      simp [data.treeFault?_eq_none] at fault

@[simp] theorem isJson_tagged (order : MemberOrder) (name : Text) (payload : Value) :
    (tagged order name payload).IsJson ↔ payload.IsJson := by
  cases order <;> simp [tagged]

/-! ### Whole and partial images -/

theorem isWholeImage_iff {parts : List Value} :
    isWholeImage parts = true ↔ ∃ (a : Attributes) (alt : List Value) (url title : Text),
      parts = [a.encode, .array alt, .array [.string url, .string title]] := by
  constructor
  · fun_cases isWholeImage parts with
    | case1 attributes alt target =>
      intro whole
      obtain ⟨hasAttributes, hasTarget⟩ := Bool.and_eq_true_iff.mp whole
      obtain ⟨a, ha⟩ := Option.isSome_iff_exists.mp hasAttributes
      obtain ⟨⟨url, title⟩, ht⟩ := Option.isSome_iff_exists.mp hasTarget
      refine ⟨a, alt, url, title, ?_⟩
      rw [Attributes.decode?_eq_some.mp ha, Value.stringPair?_eq_some.mp ht]
    | case2 => simp
  · rintro ⟨a, alt, url, title, rfl⟩
    simp [isWholeImage, Value.stringPair?]

theorem encode_imageOf (order : MemberOrder) (parts : List Value)
    (alt : encodeAll (decodeAll (altOf parts)) = altOf parts) :
    encode (imageOf (tagged order "Image" (.array parts)) order parts (decodeAll (altOf parts))) =
      tagged order "Image" (.array parts) := by
  by_cases whole : isWholeImage parts = true
  · obtain ⟨a, items, url, title, rfl⟩ := isWholeImage_iff.mp whole
    simp only [altOf] at alt
    simp [imageOf, whole, encode, imageValue, targetOf, altOf, alt, Attributes.encodeOption,
      Value.array?, Value.string?]
  · simp [imageOf, whole, encode, imageValue]

/-! ### Every value comes back -/

theorem encodeAll_decodeAll_of_forall {vs : List Value}
    (each : ∀ v ∈ vs, encode (decode v) = v) : encodeAll (decodeAll vs) = vs := by
  rw [encodeAll_eq_map, decodeAll_eq_map, List.map_map]
  exact (List.map_congr_left each).trans (List.map_id vs)

@[simp] theorem encode_decode (v : Value) : encode (decode v) = v := by
  induction v using shape_induction with
  | whitespace shape => rw [decode_whitespace, encode]
  | paragraph order name content known ih =>
    rw [decode_paragraph order known, encode, encodeAll_decodeAll_of_forall ih]
  | text order name content known => rw [decode_text order known, encode]
  | rawBlock order format content => rw [decode_rawBlock, encode]
  | rawInline order format content => rw [decode_rawInline, encode]
  | blockQuote order children ih =>
    rw [decode_blockQuote, encode, encodeAll_decodeAll_of_forall ih]
  | div order a children ih =>
    rw [decode_div, encode, encodeAll_decodeAll_of_forall ih]
    rfl
  | figure order a caption children ih =>
    rw [decode_figure, encode, encodeAll_decodeAll_of_forall ih]
    rfl
  | image order parts ih =>
    rw [decode_image, encode_imageOf order parts (encodeAll_decodeAll_of_forall ih)]
  | untyped v h => rw [decode_of_not_typed h, encode]

@[simp] theorem encodeAll_decodeAll (vs : List Value) : encodeAll (decodeAll vs) = vs := by
  apply encodeAll_decodeAll_of_forall
  intro v _
  exact encode_decode v

/-- A JSON value that is decoded as a node is written back, without a fault, as it was. -/
theorem encode?_decode {v : Value} (json : v.IsJson) : (decode v).encode? = .ok v := by
  rw [encode?, encode_decode, json.treeFault?_eq_none]

/-- A paragraph, payload first, of a malformed text and an image that lacks its target. -/
def crookedParagraph : Value :=
  let attributes := Attributes.encode { classes := ["wide"] }
  tagged .payloadFirst "Paragraph" (.array [
    tagged .tagFirst "Str" .null,
    tagged .payloadFirst "Image" (.array [attributes, .array [tagged .tagFirst "Space" .null]])])

theorem encode?_decode_crookedParagraph :
    crookedParagraph.IsJson ∧ (decode crookedParagraph).encode? = .ok crookedParagraph := by
  have json : crookedParagraph.IsJson := by decide
  exact ⟨json, encode?_decode json⟩

end Node

end RawLift
