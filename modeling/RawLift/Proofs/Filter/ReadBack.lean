import RawLift.Filter
import RawLift.Proofs.Json.Sound
import RawLift.Proofs.Unwrap.Object

/-!
What the filter writes is read as the document that it had in memory. The object that it writes is
the one it has read with other blocks, and JSON text gives every readable value back.
-/

namespace RawLift

/-! ### Readable values -/

theorem Node.readable_tagged (order : MemberOrder) (name : Text) (payload : Value) :
    (tagged order name payload).Readable ↔ payload.Readable := by
  have differ : tagKey ≠ payloadKey := by decide
  have string := Value.Readable.string name
  cases order <;> simp [tagged, Members.keys, differ, differ.symm, string]

namespace Unwrap

theorem readable_mapBlocks (o : Options) {ms : Members} (readable : (Value.object ms).Readable) :
    (Value.object (ms.mapBlocks (values o))).Readable := by
  rw [Value.readable_object] at readable ⊢
  refine ⟨?_, ?_⟩
  · rw [Members.keys_mapBlocks]
    exact readable.1
  · exact mapBlocks_of_closed Value.Readable.string Value.readable_array Node.readable_tagged o
      readable.2

end Unwrap

/-! ### Documents -/

namespace Unwrap

/-- Reading the object that is written gives the document that was unwrapped. -/
theorem ofMembers_mapBlocks (o : Options) (ms : Members) :
    Document.ofMembers (ms.mapBlocks (values o)) = document o (.ofMembers ms) := by
  have differ : metadataKey ≠ blocksKey := by decide
  have sameBlocks : (Document.ofMembers (ms.mapBlocks (values o))).blocks =
      (Document.ofMembers ms).blocks.map (blocks o) := by
    rw [Document.blocks_ofMembers, Document.blocks_ofMembers, Members.get?_mapBlocks]
    cases ms.get? blocksKey with
    | none => rfl
    | some v =>
      cases v with
      | array vs => simp [Value.mapArray, Value.array?, decodeAll_values]
      | _ => rfl
  have sameMetadata : (Document.ofMembers (ms.mapBlocks (values o))).metadata =
      (Document.ofMembers ms).metadata := by
    simp [Document.ofMembers, Members.get?_mapBlocks, differ]
  have sameExtra : (Document.ofMembers (ms.mapBlocks (values o))).extra =
      (Document.ofMembers ms).extra := Document.extra_mapBlocks _ ms
  have sameOrder : (Document.ofMembers (ms.mapBlocks (values o))).keyOrder =
      (Document.ofMembers ms).keyOrder := Members.keys_mapBlocks _ ms
  rw [document, ← sameBlocks, ← sameMetadata, ← sameExtra, ← sameOrder]

end Unwrap

namespace Document

theorem exists_members_of_parse {rule : RootRule} {s : Source} {d : Document}
    (parsed : parse rule s = .ok d) :
    ∃ ms : Members, (Value.object ms).Readable ∧ d = ofMembers ms ∧
      ¬ (rule.strict = true ∧ blocksKey ∉ ms.keys ∧ metadataKey ∉ ms.keys) := by
  obtain ⟨t, -, parsed⟩ := Json.bind_eq_ok parsed
  rw [ofText] at parsed
  split at parsed
  · cases parsed
  · cases parsed
  next ms read =>
    split at parsed
    · cases parsed
    next known =>
      obtain rfl := Except.ok.inj parsed
      exact ⟨ms, Json.readable_of_read read, rfl, known⟩
  · cases parsed

theorem ofText_of_read {rule : RootRule} {t : Text} {ms : Members}
    (read : Json.read t = .ok (.object ms))
    (known : ¬ (rule.strict = true ∧ blocksKey ∉ ms.keys ∧ metadataKey ∉ ms.keys)) :
    ofText rule t = .ok (ofMembers ms) := by
  simp only [ofText, read, known, if_false]

end Document

/-- The filter's text is read, under the same rule, as the document that unwrapping has left in
memory. -/
theorem parse_filterDocument [Json.Machine] (o : Unwrap.Options) {rule : RootRule}
    {l : Json.Layout} (usable : l.Usable) {s : Source} {d : Document}
    (parsed : Document.parse rule s = .ok d)
    (separates : l.Separates (Unwrap.document o d).encode) :
    ∃ t, filterDocument o rule l s = .ok t ∧
      Document.parse rule (.text t) = .ok (Unwrap.document o d) := by
  obtain ⟨ms, readable, rfl, known⟩ := Document.exists_members_of_parse parsed
  have distinct := ((Value.readable_object ms).mp readable).1
  have encoded : (Unwrap.document o (.ofMembers ms)).encode =
      .object (ms.mapBlocks (Unwrap.values o)) :=
    congrArg Value.object (Document.members_ofMembers distinct (Unwrap.blocks o))
  rw [encoded] at separates
  obtain ⟨t, written, read⟩ :=
    Json.read_write usable (Unwrap.readable_mapBlocks o readable) separates
  refine ⟨t, ?_, ?_⟩
  · rw [filterDocument, parsed]
    simp only [bind, Except.bind, Document.render, encoded, written]
  · rw [← Unwrap.ofMembers_mapBlocks]
    apply Document.ofText_of_read read
    rwa [Members.keys_mapBlocks]

/-- A paragraph with a lead and a letter outside ASCII, and a member that is neither blocks nor
metadata. -/
def accented : Members :=
  let lead := Node.tagged .tagFirst "Str" (.string "<\u00e9>")
  [(blocksKey, .array [Node.tagged .tagFirst "Para" (.array [lead])]),
    ("x", .array [.number (.real .nan), .null])]

/-- The same on one line. -/
def accentedText : Text :=
  Text.ofString "\x7b\"blocks\":[\x7b\"t\":\"Para\",\"c\":[\x7b\"t\":\"Str\"," ++
    Text.ofString "\"c\":\"<\\u00e9>\"\x7d]\x7d],\"x\":[NaN,null]\x7d"

theorem read_accentedText : Json.read accentedText = .ok (.object accented) := by
  have written : accentedText = Json.valueText ⟨none, true⟩ 0 (.object accented) := rfl
  have readable : (Value.object accented).Readable := by
    rw [Value.readable_object]
    refine ⟨by decide, ?_⟩
    simp [accented, Node.readable_tagged, Value.Readable.string, Value.Readable.real,
      Value.Readable.null]
  rw [written]
  exact Json.read_valueText readable (by decide)

/-- Two columns of indent, and ASCII only. -/
def indentedAscii : Json.Layout := ⟨some 2, true⟩

section
attribute [local instance] Json.Machine.roomy

theorem parse_filterDocument_accented :
    indentedAscii.Usable ∧
      Document.parse {} (.text accentedText) = .ok (.ofMembers accented) ∧
      indentedAscii.Separates (Unwrap.document {} (.ofMembers accented)).encode ∧
      ∃ t, filterDocument {} {} indentedAscii (.text accentedText) = .ok t ∧
        Document.parse {} (.text t) = .ok (Unwrap.document {} (.ofMembers accented)) := by
  have usable : indentedAscii.Usable := Json.Layout.usable_iff.mpr (by decide)
  have parsed : Document.parse {} (.text accentedText) = .ok (.ofMembers accented) :=
    Document.ofText_of_read read_accentedText (by decide)
  have separates : indentedAscii.Separates
      (Unwrap.document {} (.ofMembers accented)).encode := by decide
  exact ⟨usable, parsed, separates, parse_filterDocument {} usable parsed separates⟩

end

end RawLift
