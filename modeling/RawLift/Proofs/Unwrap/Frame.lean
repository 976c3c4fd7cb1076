import Mathlib.Data.List.Forall2
import RawLift.Proofs.Unwrap.Object

/-!
What unwrapping may change in a JSON object, said of the JSON alone: paragraphs that are reached
through block quotes, divisions and figures may become raw blocks, and nothing else is touched.
-/

namespace RawLift.Unwrap

open Node

/-- How a block may change. Containers are entered, a paragraph may be raised to a raw block with
markup that starts with `<`, and whatever is no container may stay as it is. -/
inductive Lifted (format : Text) : Value → Value → Prop
  | blockQuote (order : MemberOrder) {vs ws : List Value}
      (inside : List.Forall₂ (Lifted format) vs ws) :
      Lifted format (tagged order "BlockQuote" (.array vs)) (tagged order "BlockQuote" (.array ws))
  | div (order : MemberOrder) (a : Attributes) {vs ws : List Value}
      (inside : List.Forall₂ (Lifted format) vs ws) :
      Lifted format (tagged order "Div" (.array [a.encode, .array vs]))
        (tagged order "Div" (.array [a.encode, .array ws]))
  | figure (order : MemberOrder) (a : Attributes) (caption : Value) {vs ws : List Value}
      (inside : List.Forall₂ (Lifted format) vs ws) :
      Lifted format (tagged order "Figure" (.array [a.encode, caption, .array vs]))
        (tagged order "Figure" (.array [a.encode, caption, .array ws]))
  | raised {name : Text} (known : IsParagraphTag name) (order : MemberOrder) (content : List Value)
      (s : Text) : Lifted format (tagged order name (.array content))
        (.object [(tagKey, .string "RawBlock"),
          (payloadKey, .array [.string format, .string (.char '<' :: s)])])
  | kept {v : Value} (flat : ¬ HoldsBlocks v) : Lifted format v v

/-- How a member of the object may change: its key never, and its value only if it is the array of
the blocks. -/
inductive MemberLifted (format : Text) : Text × Value → Text × Value → Prop
  | blocks {vs ws : List Value} (inside : List.Forall₂ (Lifted format) vs ws) :
      MemberLifted format (blocksKey, .array vs) (blocksKey, .array ws)
  | other {key : Text} {v : Value} (noBlocks : key = blocksKey → v.array? = none) :
      MemberLifted format (key, v) (key, v)

theorem paragraph_of_replacementOf?_decode {o : Options} {v : Value} {r : Replacement}
    (replaced : o.replacementOf? (decode v) = some r) :
    ∃ order name content, IsParagraphTag name ∧ v = tagged order name (.array content) ∧
      ∃ s, r.markup = .char '<' :: s := by
  by_cases typed : Typed v
  · cases typed with
    | paragraph known order content =>
      rw [decode_paragraph order known] at replaced
      have angle := Options.head?_of_replacement? replaced
      exact ⟨order, _, content, known, rfl, List.head?_eq_some_iff.mp angle⟩
    | text known => simp [decode_text _ known, Options.replacementOf?] at replaced
    | image => simp [imageOf, Options.replacementOf?] at replaced
    | _ => simp [Options.replacementOf?] at replaced
  · simp [decode_of_not_typed typed, Options.replacementOf?] at replaced

section
variable (o : Options)

theorem forall₂_values {R : Value → Value → Prop} {vs : List Value}
    (each : ∀ v ∈ vs, R v (value o v)) : List.Forall₂ R vs (vs.map (value o)) := by
  rw [List.forall₂_map_right_iff, List.forall₂_same]
  exact each

theorem lifted_value (v : Value) : Lifted o.format.name v (value o v) := by
  induction v using holdsBlocks_induction with
  | blockQuote order children ih =>
    rw [value_blockQuote]
    exact .blockQuote order (forall₂_values o ih)
  | div order a children ih =>
    rw [value_div]
    exact .div order a (forall₂_values o ih)
  | figure order a caption children ih =>
    rw [value_figure]
    exact .figure order a caption (forall₂_values o ih)
  | leaf v flat =>
    cases replaced : o.replacementOf? (decode v) with
    | none =>
      rw [value_of_kept flat replaced]
      exact .kept flat
    | some r =>
      rw [value_of_replaced flat replaced]
      obtain ⟨order, name, content, known, rfl, s, markup⟩ :=
        paragraph_of_replacementOf?_decode replaced
      rw [markup]
      exact .raised known order content s

theorem memberLifted_mapBlocks (ms : Members) :
    List.Forall₂ (MemberLifted o.format.name) ms (ms.mapBlocks (values o)) := by
  rw [Members.mapBlocks, List.forall₂_map_right_iff, List.forall₂_same]
  rintro ⟨k, v⟩ -
  by_cases isBlocks : k = blocksKey
  · subst isBlocks
    rw [if_pos rfl]
    cases array : v.array? with
    | some vs =>
      obtain rfl := Value.array?_eq_some.mp array
      rw [Value.mapArray, values_eq_map]
      apply MemberLifted.blocks
      apply forall₂_values
      intro v _
      exact lifted_value o v
    | none =>
      rw [Value.mapArray_of_array?_eq_none array]
      apply MemberLifted.other
      intro _
      exact array
  · rw [if_neg isBlocks]
    apply MemberLifted.other
    intro same
    exact absurd same isBlocks

end

/-- Unwrapping an object that JSON has a form for succeeds, and changes it only in the ways named
above: every member keeps its key, its place and its value, apart from the array of the blocks. -/
theorem tryMembers_lifted (o : Options) {ms : Members} (distinct : ms.keys.Nodup)
    (json : (Value.object ms).IsJson) :
    ∃ ns s, Session.tryMembers { options := o } ms = (.ok ns, s) ∧
      List.Forall₂ (MemberLifted o.format.name) ms ns := by
  have unwrapped := Session.tryMembers_eq { options := o } distinct json
  exact ⟨_, _, unwrapped, memberLifted_mapBlocks o ms⟩

/-- One paragraph below containers, and the same in a division whose attributes are malformed and
outside the blocks, where it is not reached. -/
def quotedTag : Members :=
  let paragraph := tagged .tagFirst "Para" (.array [tagged .tagFirst "Str" (.string "<br>")])
  let quote := tagged .tagFirst "BlockQuote" (.array [paragraph])
  [(blocksKey, .array [
      tagged .payloadFirst "Div" (.array [Attributes.encode {}, .array [quote]]),
      tagged .tagFirst "Div" (.array [.null, .array [paragraph]])]),
    (metadataKey, paragraph)]

theorem tryMembers_lifted_quotedTag :
    quotedTag.keys.Nodup ∧ (Value.object quotedTag).IsJson ∧
      ∃ ns s, Session.tryMembers {} quotedTag = (.ok ns, s) ∧
        List.Forall₂ (MemberLifted "html") quotedTag ns := by
  have distinct : quotedTag.keys.Nodup := by decide
  have json : (Value.object quotedTag).IsJson := by decide
  exact ⟨distinct, json, tryMembers_lifted {} distinct json⟩

end RawLift.Unwrap
