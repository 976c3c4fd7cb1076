import RawLift.Proofs.Node.RoundTrip

/-!
The trees that are read from values, described without the reader. Among them decoding undoes
encoding, so no two of them are written alike. The traps are verbatim nodes that hold the value of a
typed node, and images whose remembered source does not say what they say.
-/

namespace RawLift.Node

/-- What every tree that was read looks like. A verbatim node holds a value that stands for no typed
node, and an image remembers its source exactly if a part was missing; then its own parts are those
that the source has. -/
inductive Canonical : Node → Prop
  | paragraph {name : Text} (known : IsParagraphTag name) {content : List Node}
      (inside : ∀ n ∈ content, Canonical n) (order : MemberOrder) :
      Canonical (.paragraph name content order)
  | text {name : Text} (known : IsTextTag name) (content : Text) (order : MemberOrder) :
      Canonical (.text name content order)
  | rawBlock (format content : Text) (order : MemberOrder) :
      Canonical (.rawBlock format content order)
  | rawInline (format content : Text) (order : MemberOrder) :
      Canonical (.rawInline format content order)
  | whitespace (shape : Whitespace) : Canonical (.whitespace shape .tagFirst)
  | blockQuote {children : List Node} (inside : ∀ n ∈ children, Canonical n)
      (order : MemberOrder) : Canonical (.blockQuote children order)
  | div (a : Attributes) {children : List Node} (inside : ∀ n ∈ children, Canonical n)
      (order : MemberOrder) : Canonical (.div (some a) children order)
  | figure (a : Attributes) {caption : Value} (data : caption.IsData) {children : List Node}
      (inside : ∀ n ∈ children, Canonical n) (order : MemberOrder) :
      Canonical (.figure (some a) caption children order)
  | wholeImage (a : Attributes) {alt : List Node} (inside : ∀ n ∈ alt, Canonical n)
      (url title : Text) (order : MemberOrder) :
      Canonical (.image (some a) alt url title none order)
  | partialImage {parts : List Value} (data : ∀ part ∈ parts, part.IsData)
      (lacking : ∀ (a : Attributes) (alt : List Value) (url title : Text),
        parts ≠ [a.encode, .array alt, .array [.string url, .string title]])
      {alt : List Node} (inside : ∀ n ∈ alt, Canonical n) (fromSource : encodeAll alt = altOf parts)
      (order : MemberOrder) :
      Canonical (.image (some ((parts[0]?.bind Attributes.decode?).getD {})) alt
        (targetOf parts).1 (targetOf parts).2 (some (tagged order "Image" (.array parts))) order)
  | verbatim {raw : Value} (data : raw.IsData) (untyped : ¬ Typed raw) : Canonical (.verbatim raw)

@[simp] theorem isData_tagged (order : MemberOrder) (name : Text) (payload : Value) :
    (tagged order name payload).IsData ↔ payload.IsData := by
  cases order <;> simp [tagged]

/-! ### Canonical trees come back -/

theorem isWholeImage_eq_false {parts : List Value}
    (lacking : ∀ (a : Attributes) (alt : List Value) (url title : Text),
      parts ≠ [a.encode, .array alt, .array [.string url, .string title]]) :
    isWholeImage parts = false := by
  apply Bool.eq_false_iff.mpr
  intro whole
  obtain ⟨a, alt, url, title, same⟩ := isWholeImage_iff.mp whole
  exact lacking a alt url title same

theorem decodeAll_encodeAll_of_forall {ns : List Node}
    (each : ∀ n ∈ ns, decode (encode n) = n) : decodeAll (encodeAll ns) = ns := by
  rw [encodeAll_eq_map, decodeAll_eq_map, List.map_map]
  exact (List.map_congr_left each).trans (List.map_id ns)

theorem decode_encode {n : Node} (canonical : Canonical n) : decode (encode n) = n := by
  induction canonical with
  | paragraph known inside order ih =>
    rw [encode, decode_paragraph order known, decodeAll_encodeAll_of_forall ih]
  | text known content order => rw [encode, decode_text order known]
  | rawBlock format content order => rw [encode, decode_rawBlock]
  | rawInline format content order => rw [encode, decode_rawInline]
  | whitespace shape => rw [encode, decode_whitespace]
  | blockQuote inside order ih =>
    rw [encode, decode_blockQuote, decodeAll_encodeAll_of_forall ih]
  | div a inside order ih =>
    rw [encode, Attributes.encodeOption, Option.map_some, Option.getD_some, decode_div,
      decodeAll_encodeAll_of_forall ih]
  | figure a data inside order ih =>
    rw [encode, Attributes.encodeOption, Option.map_some, Option.getD_some, decode_figure,
      decodeAll_encodeAll_of_forall ih]
  | @wholeImage a alt inside url title order ih =>
    have whole : isWholeImage
        [a.encode, .array (encodeAll alt), .array [.string url, .string title]] = true :=
      isWholeImage_iff.mpr ⟨a, encodeAll alt, url, title, rfl⟩
    rw [encode, imageValue, Option.getD_none, Attributes.encodeOption, Option.map_some,
      Option.getD_some, decode_image, altOf, decodeAll_encodeAll_of_forall ih, imageOf, whole]
    simp [targetOf, Value.array?, Value.string?]
  | partialImage data lacking inside fromSource order ih =>
    rw [encode, imageValue, Option.getD_some, decode_image, ← fromSource,
      decodeAll_encodeAll_of_forall ih, imageOf, isWholeImage_eq_false lacking]
    rfl
  | verbatim data untyped => rw [encode, decode_of_not_typed untyped]

/-! ### No part of a canonical tree stops the encoding -/

theorem isJson_attributes (a : Attributes) : a.encode.IsJson := by
  simp only [Attributes.encode, Value.isJson_array, List.forall_mem_cons, List.forall_mem_map]
  simp

theorem isData_attributes (a : Attributes) : a.encode.IsData := (isJson_attributes a).isData

theorem isData_encodeAll_of_forall {ns : List Node} (each : ∀ n ∈ ns, (encode n).IsData) :
    ∀ v ∈ encodeAll ns, v.IsData := by
  rw [encodeAll_eq_map]
  exact List.forall_mem_map.mpr each

theorem isData_encode {n : Node} (canonical : Canonical n) : (encode n).IsData := by
  induction canonical with
  | paragraph known inside order ih | blockQuote inside order ih =>
    rw [encode, isData_tagged, Value.isData_array]
    exact isData_encodeAll_of_forall ih
  | text | rawBlock | rawInline | whitespace => simp [encode]
  | div a inside order ih =>
    have children := isData_encodeAll_of_forall ih
    simpa [encode, Attributes.encodeOption, isData_attributes] using children
  | figure a data inside order ih =>
    have children := isData_encodeAll_of_forall ih
    simpa [encode, Attributes.encodeOption, isData_attributes, data] using children
  | wholeImage a inside url title order ih =>
    have texts := isData_encodeAll_of_forall ih
    simpa [encode, imageValue, Attributes.encodeOption, isData_attributes] using texts
  | partialImage data lacking inside fromSource order ih =>
    rw [encode, imageValue, Option.getD_some, isData_tagged, Value.isData_array]
    exact data
  | verbatim data untyped => rwa [encode]

/-! ### What is read is canonical -/

theorem canonical_decodeAll {vs : List Value} (data : ∀ v ∈ vs, v.IsData)
    (each : ∀ v ∈ vs, v.IsData → Canonical (decode v)) : ∀ n ∈ decodeAll vs, Canonical n := by
  rw [decodeAll_eq_map, List.forall_mem_map]
  intro v mem
  exact each v mem (data v mem)

theorem isData_of_mem_altOf {parts : List Value} (data : ∀ part ∈ parts, part.IsData) :
    ∀ v ∈ altOf parts, v.IsData := by
  intro v mem
  obtain ⟨alt, inside, mem⟩ := mem_of_mem_altOf mem
  exact (Value.isData_array alt).mp (data _ inside) v mem

theorem canonical_imageOf {parts : List Value} (data : ∀ part ∈ parts, part.IsData)
    (alt : ∀ n ∈ decodeAll (altOf parts), Canonical n) (order : MemberOrder) :
    Canonical (imageOf (tagged order "Image" (.array parts)) order parts
      (decodeAll (altOf parts))) := by
  by_cases whole : isWholeImage parts = true
  · obtain ⟨a, texts, url, title, rfl⟩ := isWholeImage_iff.mp whole
    rw [imageOf, if_pos whole]
    exact .wholeImage _ alt _ _ order
  · rw [imageOf, if_neg whole]
    refine .partialImage data ?_ alt (encodeAll_decodeAll _) order
    rintro a texts url title rfl
    exact whole (isWholeImage_iff.mpr ⟨a, texts, url, title, rfl⟩)

theorem canonical_decode {v : Value} (data : v.IsData) : Canonical (decode v) := by
  induction v using shape_induction with
  | whitespace shape =>
    rw [decode_whitespace]
    exact .whitespace shape
  | paragraph order name content known ih =>
    rw [isData_tagged, Value.isData_array] at data
    rw [decode_paragraph order known]
    exact .paragraph known (canonical_decodeAll data ih) order
  | text order name content known =>
    rw [decode_text order known]
    exact .text known content order
  | rawBlock order format content =>
    rw [decode_rawBlock]
    exact .rawBlock format content order
  | rawInline order format content =>
    rw [decode_rawInline]
    exact .rawInline format content order
  | blockQuote order children ih =>
    rw [isData_tagged, Value.isData_array] at data
    rw [decode_blockQuote]
    exact .blockQuote (canonical_decodeAll data ih) order
  | div order a children ih =>
    simp only [isData_tagged, Value.isData_array, List.forall_mem_cons] at data
    rw [decode_div]
    exact .div a (canonical_decodeAll data.2.1 ih) order
  | figure order a caption children ih =>
    simp only [isData_tagged, Value.isData_array, List.forall_mem_cons] at data
    rw [decode_figure]
    exact .figure a data.2.1 (canonical_decodeAll data.2.2.1 ih) order
  | image order parts ih =>
    rw [isData_tagged, Value.isData_array] at data
    rw [decode_image]
    exact canonical_imageOf data (canonical_decodeAll (isData_of_mem_altOf data) ih) order
  | untyped v untyped =>
    rw [decode_of_not_typed untyped]
    exact .verbatim data untyped

theorem encode?_of_canonical {n : Node} (canonical : Canonical n) : n.encode? = .ok n.encode := by
  rw [encode?, (isData_encode canonical).treeFault?_eq_none]

/-- The canonical trees are those that are read from data, and each is read back from what it is
written as; so no two of them are written alike. -/
theorem canonical_image_of_decode :
    (∀ n, Canonical n → ∃ v, n.encode? = .ok v ∧ decode v = n) ∧
      (∀ v : Value, v.IsData → Canonical (decode v)) ∧
      ∀ n m v, Canonical n → Canonical m → n.encode? = .ok v → m.encode? = .ok v → n = m := by
  refine ⟨?_, fun v data => canonical_decode data, ?_⟩
  · intro n canonical
    exact ⟨n.encode, encode?_of_canonical canonical, decode_encode canonical⟩
  · intro n m v hn hm first second
    rw [encode?_of_canonical hn] at first
    rw [encode?_of_canonical hm] at second
    cases first
    have alike : m.encode = n.encode := Except.ok.inj second
    rw [← decode_encode hn, ← alike, decode_encode hm]

/-- It holds a verbatim node that looks like a text, and an image that remembers its source. -/
theorem canonical_image_of_decode_crookedParagraph :
    Canonical (decode crookedParagraph) ∧
      ∃ v, (decode crookedParagraph).encode? = .ok v ∧ decode v = decode crookedParagraph := by
  have data : crookedParagraph.IsData := by decide
  have canonical := canonical_image_of_decode.2.1 crookedParagraph data
  exact ⟨canonical, canonical_image_of_decode.1 _ canonical⟩

end RawLift.Node
