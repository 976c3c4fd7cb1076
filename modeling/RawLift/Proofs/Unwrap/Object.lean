import RawLift.Failure
import RawLift.Proofs.Document.Members
import RawLift.Proofs.Unwrap.Walk

/-!
Unwrapping from object to object: reading the document, walking over its blocks and writing it. On
an object that JSON has a form for no step fails, and all of it is one change of the blocks.
-/

namespace RawLift

/-! ### Values that hold blocks -/

namespace Node

/-- The values that stand for block quotes, divisions and figures. -/
inductive HoldsBlocks : Value → Prop
  | blockQuote (order : MemberOrder) (children : List Value) :
      HoldsBlocks (tagged order "BlockQuote" (.array children))
  | div (order : MemberOrder) (a : Attributes) (children : List Value) :
      HoldsBlocks (tagged order "Div" (.array [a.encode, .array children]))
  | figure (order : MemberOrder) (a : Attributes) (caption : Value) (children : List Value) :
      HoldsBlocks (tagged order "Figure" (.array [a.encode, caption, .array children]))

theorem isContainer_decode_iff {v : Value} : (decode v).isContainer = true ↔ HoldsBlocks v := by
  constructor
  · intro container
    by_cases typed : Typed v
    · cases typed with
      | blockQuote order children => exact .blockQuote order children
      | div order a children => exact .div order a children
      | figure order a caption children => exact .figure order a caption children
      | paragraph known => simp [decode_paragraph _ known, isContainer] at container
      | text known => simp [decode_text _ known, isContainer] at container
      | image => simp [imageOf, isContainer] at container
      | _ => simp [isContainer] at container
    · simp [decode_of_not_typed typed, isContainer] at container
  · intro holds
    cases holds <;> simp [isContainer]

theorem holdsBlocks_induction {motive : Value → Prop}
    (blockQuote : ∀ order children, (∀ v ∈ children, motive v) →
      motive (tagged order "BlockQuote" (.array children)))
    (div : ∀ order (a : Attributes) children, (∀ v ∈ children, motive v) →
      motive (tagged order "Div" (.array [a.encode, .array children])))
    (figure : ∀ order (a : Attributes) caption children, (∀ v ∈ children, motive v) →
      motive (tagged order "Figure" (.array [a.encode, caption, .array children])))
    (leaf : ∀ v, ¬ HoldsBlocks v → motive v) (v : Value) : motive v := by
  induction v using shape_induction with
  | blockQuote order children ih => exact blockQuote order children ih
  | div order a children ih => exact div order a children ih
  | figure order a caption children ih => exact figure order a caption children ih
  | paragraph order name content known =>
    exact leaf _ (by simp [← isContainer_decode_iff, decode_paragraph _ known, isContainer])
  | text order name content known =>
    exact leaf _ (by simp [← isContainer_decode_iff, decode_text _ known, isContainer])
  | image order parts => exact leaf _ (by simp [← isContainer_decode_iff, imageOf, isContainer])
  | untyped v untyped =>
    exact leaf _ (by simp [← isContainer_decode_iff, decode_of_not_typed untyped, isContainer])
  | _ => exact leaf _ (by simp [← isContainer_decode_iff, isContainer])

theorem altGap?_decode (v : Value) : (decode v).altGap? = none := by
  by_cases typed : Typed v
  · cases typed with
    | paragraph known =>
      rw [decode_paragraph _ known]
      rfl
    | text known =>
      rw [decode_text _ known]
      rfl
    | image =>
      rw [decode_image]
      rfl
    | _ => simp [altGap?]
  · rw [decode_of_not_typed typed]
    rfl

end Node

namespace Unwrap

open Node

/-- One value unwrapped as a block. -/
def value (o : Options) (v : Value) : Value := encode (block o (decode v))

/-- The items of an array unwrapped as blocks. -/
def values (o : Options) (vs : List Value) : List Value := encodeAll (blocks o (decodeAll vs))

theorem values_eq_map (o : Options) (vs : List Value) : values o vs = vs.map (value o) := by
  rw [values, blocks, mapLeavesAll_eq_map, encodeAll_eq_map, decodeAll_eq_map, List.map_map,
    List.map_map]
  rfl

section
variable (o : Options) (order : MemberOrder)

theorem value_blockQuote (children : List Value) :
    value o (tagged order "BlockQuote" (.array children)) =
      tagged order "BlockQuote" (.array (children.map (value o))) := by
  rw [value, decode_blockQuote, block, mapLeaves, encode, ← values_eq_map]
  rfl

theorem value_div (a : Attributes) (children : List Value) :
    value o (tagged order "Div" (.array [a.encode, .array children])) =
      tagged order "Div" (.array [a.encode, .array (children.map (value o))]) := by
  rw [value, decode_div, block, mapLeaves, encode, ← values_eq_map]
  rfl

theorem value_figure (a : Attributes) (caption : Value) (children : List Value) :
    value o (tagged order "Figure" (.array [a.encode, caption, .array children])) =
      tagged order "Figure" (.array [a.encode, caption, .array (children.map (value o))]) := by
  rw [value, decode_figure, block, mapLeaves, encode, ← values_eq_map]
  rfl

end

section
variable {o : Options} {v : Value} (flat : ¬ HoldsBlocks v)
include flat

theorem block_decode_of_flat : block o (decode v) = o.leaf (decode v) := by
  refine mapLeaves_of_leaf ?_ o.leaf
  rwa [← isContainer_decode_iff, Bool.not_eq_true] at flat

theorem value_of_kept (kept : o.replacementOf? (decode v) = none) : value o v = v := by
  rw [value, block_decode_of_flat flat, Options.leaf_of_kept kept, encode_decode]

theorem value_of_replaced {r : Replacement} (replaced : o.replacementOf? (decode v) = some r) :
    value o v =
      tagged .tagFirst "RawBlock" (.array [.string o.format.name, .string r.markup]) := by
  rw [value, block_decode_of_flat flat, Options.leaf_of_replaced replaced, encode]

end

theorem decodeAll_values_of_forall {o : Options} {vs : List Value}
    (each : ∀ v ∈ vs, decode (value o v) = block o (decode v)) :
    decodeAll (vs.map (value o)) = blocks o (decodeAll vs) := by
  rw [blocks, mapLeavesAll_eq_map, decodeAll_eq_map, decodeAll_eq_map, List.map_map, List.map_map]
  exact List.map_congr_left each

theorem decode_value (o : Options) (v : Value) : decode (value o v) = block o (decode v) := by
  induction v using holdsBlocks_induction with
  | blockQuote order children ih | div order a children ih
  | figure order a caption children ih =>
    simp only [value_blockQuote, value_div, value_figure, decode_blockQuote, decode_div,
      decode_figure, decodeAll_values_of_forall ih]
    rfl
  | leaf v flat =>
    rw [block_decode_of_flat flat]
    cases replaced : o.replacementOf? (decode v) with
    | none => rw [value_of_kept flat replaced, Options.leaf_of_kept replaced]
    | some r =>
      rw [value_of_replaced flat replaced, Options.leaf_of_replaced replaced, decode_rawBlock]

theorem decodeAll_values (o : Options) (vs : List Value) :
    decodeAll (values o vs) = blocks o (decodeAll vs) := by
  rw [values_eq_map]
  apply decodeAll_values_of_forall
  intro v _
  exact decode_value o v

theorem values_values {o' o : Options} (narrower : o'.Narrower o) (vs : List Value) :
    values o' (values o vs) = values o vs := by
  rw [values, decodeAll_values, blocks_blocks narrower]
  rfl

section
variable {P : Value → Prop} (string : ∀ s, P (.string s))
  (array : ∀ vs, P (.array vs) ↔ ∀ v ∈ vs, P v)
  (payload : ∀ order name v, P (tagged order name v) ↔ P v)
include string array payload

/-- What a value says of its parts at all depths survives unwrapping. -/
theorem value_of_closed (o : Options) {v : Value} (holds : P v) : P (value o v) := by
  induction v using holdsBlocks_induction with
  | blockQuote order children ih =>
    simp only [value_blockQuote, payload, array, List.forall_mem_map] at holds ⊢
    intro w mem
    exact ih w mem (holds w mem)
  | div order a children ih =>
    simp only [value_div, payload, array, List.forall_mem_cons, List.forall_mem_map] at holds ⊢
    obtain ⟨attributes, inside, none⟩ := holds
    refine ⟨attributes, ?_, none⟩
    intro w mem
    exact ih w mem (inside w mem)
  | figure order a caption children ih =>
    simp only [value_figure, payload, array, List.forall_mem_cons, List.forall_mem_map] at holds ⊢
    obtain ⟨attributes, caption, inside, none⟩ := holds
    refine ⟨attributes, caption, ?_, none⟩
    intro w mem
    exact ih w mem (inside w mem)
  | leaf v flat =>
    cases replaced : o.replacementOf? (decode v) with
    | none => rwa [value_of_kept flat replaced]
    | some r =>
      rw [value_of_replaced flat replaced]
      simp [payload, array, string]

theorem mapBlocks_of_closed (o : Options) {ms : Members} (holds : ∀ m ∈ ms, P m.2) :
    ∀ m ∈ ms.mapBlocks (values o), P m.2 := by
  apply Members.forall_mem_mapBlocks _ holds
  intro vs items
  rw [array] at items ⊢
  rw [values_eq_map, List.forall_mem_map]
  intro v mem
  exact value_of_closed string array payload o (items v mem)

end

/-! ### Nothing stops the walk -/

/-- No leaf that was read stops the walk. -/
theorem Options.gap?_decode (o : Options) (v : Value) : o.gap? (decode v) = none := by
  by_cases typed : Typed v
  · cases typed with
    | paragraph known order content =>
      rw [decode_paragraph _ known, decodeAll_eq_map]
      apply gap?_paragraph
      intro n mem
      obtain ⟨w, -, rfl⟩ := List.mem_map.mp mem
      exact altGap?_decode w
    | text known =>
      rw [decode_text _ known]
      rfl
    | image =>
      rw [decode_image]
      rfl
    | _ => simp [gap?, Node.gap?]
  · rw [decode_of_not_typed typed]
    rfl

theorem gap?_of_mem_leaves (o : Options) {v : Value} {n : Node} (mem : n ∈ leaves (decode v)) :
    o.gap? n = none := by
  induction v using holdsBlocks_induction with
  | blockQuote order children ih | div order a children ih
  | figure order a caption children ih =>
    simp only [decode_blockQuote, decode_div, decode_figure, leaves, leavesAll_eq_flatMap,
      decodeAll_eq_map, List.flatMap_map] at mem
    obtain ⟨v, inside, mem⟩ := List.mem_flatMap.mp mem
    exact ih v inside mem
  | leaf v flat =>
    rw [← isContainer_decode_iff, Bool.not_eq_true] at flat
    rw [leaves_of_leaf flat, List.mem_singleton] at mem
    subst mem
    exact Options.gap?_decode o v

theorem gap?_decodeAll (o : Options) (vs : List Value) : gap? o (decodeAll vs) = none := by
  rw [gap?, List.findSome?_eq_none_iff, leavesAll_eq_flatMap, decodeAll_eq_map, List.flatMap_map]
  intro n mem
  obtain ⟨v, -, mem⟩ := List.mem_flatMap.mp mem
  exact gap?_of_mem_leaves o mem

/-! ### Whole objects -/

namespace Session

/-- Unwraps the object with these members, and gives the members of the result. -/
def tryMembers (s : Session) (ms : Members) : Except Failure Members × Session :=
  match s.tryDocument (.ofMembers ms) with
  | (some gap, _, s') => (.error (.gap gap), s')
  | (none, d, s') =>
    match d.encode.treeFault? with
    | some leaf => (.error (.unwritable leaf), s')
    | none => (.ok d.members, s')

end Session

theorem isJson_mapBlocks (o : Options) {ms : Members} (json : (Value.object ms).IsJson) :
    (Value.object (ms.mapBlocks (values o))).IsJson := by
  rw [Value.isJson_object] at json ⊢
  exact mapBlocks_of_closed Value.isJson_string Value.isJson_array isJson_tagged o json

theorem gap?_ofMembers (o : Options) (ms : Members) :
    gap? o ((Document.ofMembers ms).blocks.getD []) = none := by
  rw [Document.blocks_ofMembers]
  cases (ms.get? blocksKey).bind Value.array? with
  | none => rfl
  | some vs => exact gap?_decodeAll o vs

/-- An object that JSON has a form for is unwrapped without failure, and only its blocks change. -/
theorem Session.tryMembers_eq (s : Session) {ms : Members} (distinct : ms.keys.Nodup)
    (json : (Value.object ms).IsJson) :
    s.tryMembers ms = (.ok (ms.mapBlocks (values s.options)),
      s.counting (documentTally s.options (.ofMembers ms))) := by
  have written : (Unwrap.document s.options (.ofMembers ms)).members =
      ms.mapBlocks (values s.options) := Document.members_ofMembers distinct _
  have faultless := (isJson_mapBlocks s.options json).treeFault?_eq_none
  rw [tryMembers, tryDocument_of_gap?_eq_none (gap?_ofMembers _ ms)]
  simp only [document, Document.encode, written, faultless]

end Unwrap

end RawLift
