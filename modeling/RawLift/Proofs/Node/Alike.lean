import Mathlib.Data.List.Permutation
import RawLift.Proofs.Json.Alike

/-!
Values that say the same are read as nodes that say the same: the kind, the texts and the nodes
inside agree, and only what nodes carry along for writing may differ.
-/

namespace RawLift.Node

open Value (MemberAlike)

/-- Nodes that differ at most in their tags, the order of their members, the sources of their images
and in verbatim values that say the same. -/
inductive Alike : Node → Node → Prop
  | paragraph (tag tag' : Text) {content content' : List Node}
      (inside : List.Forall₂ Alike content content') (order order' : MemberOrder) :
      Alike (.paragraph tag content order) (.paragraph tag' content' order')
  | rawBlock (format content : Text) (order order' : MemberOrder) :
      Alike (.rawBlock format content order) (.rawBlock format content order')
  | blockQuote {children children' : List Node} (inside : List.Forall₂ Alike children children')
      (order order' : MemberOrder) :
      Alike (.blockQuote children order) (.blockQuote children' order')
  | div (a : Option Attributes) {children children' : List Node}
      (inside : List.Forall₂ Alike children children') (order order' : MemberOrder) :
      Alike (.div a children order) (.div a children' order')
  | figure (a : Option Attributes) {caption caption' : Value} (captions : caption.Alike caption')
      {children children' : List Node} (inside : List.Forall₂ Alike children children')
      (order order' : MemberOrder) :
      Alike (.figure a caption children order) (.figure a caption' children' order')
  | text (tag tag' content : Text) (order order' : MemberOrder) :
      Alike (.text tag content order) (.text tag' content order')
  | whitespace (shape : Whitespace) (order order' : MemberOrder) :
      Alike (.whitespace shape order) (.whitespace shape order')
  | rawInline (format content : Text) (order order' : MemberOrder) :
      Alike (.rawInline format content order) (.rawInline format content order')
  | image (a : Option Attributes) {alt alt' : List Node} (inside : List.Forall₂ Alike alt alt')
      (url title : Text) (source source' : Option Value) (order order' : MemberOrder) :
      Alike (.image a alt url title source order) (.image a alt' url title source' order')
  | verbatim {raw raw' : Value} (alike : raw.Alike raw') : Alike (.verbatim raw) (.verbatim raw')

/-! ### The shape of what is alike -/

/-- The names that a tag may be exchanged for. -/
def SameTag (s t : Text) : Prop :=
  t = s ∨ (IsParagraphTag s ∧ IsParagraphTag t) ∨ (IsTextTag s ∧ IsTextTag t)

instance (s t : Text) : Decidable (SameTag s t) :=
  inferInstanceAs (Decidable (_ ∨ (_ ∧ _) ∨ (_ ∧ _)))

theorem SameTag.eq_of_single {s t : Text} (same : SameTag s t)
    (single : ¬ (IsParagraphTag s ∨ IsTextTag s)) : t = s := by
  rcases same with same | ⟨paragraph, -⟩ | ⟨text, -⟩
  · exact same
  · exact absurd (.inl paragraph) single
  · exact absurd (.inr text) single

theorem SameTag.isParagraphTag {s t : Text} (same : SameTag s t) (known : IsParagraphTag s) :
    IsParagraphTag t := by
  rcases same with rfl | ⟨-, paragraph⟩ | ⟨text, -⟩
  · exact known
  · exact paragraph
  · rcases known with rfl | rfl <;> exact absurd text (by decide)

theorem SameTag.isTextTag {s t : Text} (same : SameTag s t) (known : IsTextTag s) :
    IsTextTag t := by
  rcases same with rfl | ⟨paragraph, -⟩ | ⟨-, text⟩
  · exact known
  · rcases known with rfl | rfl <;> exact absurd paragraph (by decide)
  · exact text

theorem tag_alike {s : Text} {n : Text × Value} (alike : MemberAlike (tagKey, .string s) n) :
    ∃ t, n = (tagKey, .string t) ∧ SameTag s t := by
  cases alike with
  | value key alike =>
    obtain rfl := Value.string_alike.mp alike
    exact ⟨s, rfl, .inl rfl⟩
  | paragraph first second => exact ⟨_, rfl, .inr (.inl ⟨first, second⟩)⟩
  | text first second => exact ⟨_, rfl, .inr (.inr ⟨first, second⟩)⟩

theorem payload_alike {v : Value} {n : Text × Value} (alike : MemberAlike (payloadKey, v) n) :
    ∃ w, n = (payloadKey, w) ∧ v.Alike w := by
  cases alike with
  | value key alike => exact ⟨_, rfl, alike⟩

theorem pair_alike {m m' : Text × Value} {w : Value}
    (alike : (Value.object [m, m']).Alike w) :
    ∃ n n', MemberAlike m n ∧ MemberAlike m' n' ∧
      (w = .object [n, n'] ∨ w = .object [n', n]) := by
  cases alike with
  | object members permuted =>
    rcases members with _ | ⟨first, _ | ⟨second, ⟨⟩⟩⟩
    rcases List.pair_perm.mp permuted with rfl | rfl
    · exact ⟨_, _, first, second, .inl rfl⟩
    · exact ⟨_, _, first, second, .inr rfl⟩

theorem tagged_alike {order : MemberOrder} {name : Text} {payload w : Value}
    (alike : (tagged order name payload).Alike w) :
    ∃ order' name' payload', w = tagged order' name' payload' ∧ SameTag name name' ∧
      payload.Alike payload' := by
  cases order with
  | tagFirst =>
    obtain ⟨_, _, tag, body, either⟩ := pair_alike alike
    obtain ⟨t, rfl, same⟩ := tag_alike tag
    obtain ⟨u, rfl, inner⟩ := payload_alike body
    rcases either with rfl | rfl
    · exact ⟨.tagFirst, t, u, rfl, same, inner⟩
    · exact ⟨.payloadFirst, t, u, rfl, same, inner⟩
  | payloadFirst =>
    obtain ⟨_, _, body, tag, either⟩ := pair_alike alike
    obtain ⟨t, rfl, same⟩ := tag_alike tag
    obtain ⟨u, rfl, inner⟩ := payload_alike body
    rcases either with rfl | rfl
    · exact ⟨.payloadFirst, t, u, rfl, same, inner⟩
    · exact ⟨.tagFirst, t, u, rfl, same, inner⟩

theorem alike_tagged (order order' : MemberOrder) {name : Text} {v w : Value} (alike : v.Alike w) :
    (tagged order name v).Alike (tagged order' name w) := by
  have tags : MemberAlike (tagKey, .string name) (tagKey, .string name) :=
    .value tagKey (.string name)
  have payloads : MemberAlike (payloadKey, v) (payloadKey, w) := .value payloadKey alike
  cases order <;> cases order'
  · exact .object (.cons tags (.cons payloads .nil)) (.refl _)
  · exact .object (.cons tags (.cons payloads .nil)) (.swap _ _ _)
  · exact .object (.cons payloads (.cons tags .nil)) (.swap _ _ _)
  · exact .object (.cons payloads (.cons tags .nil)) (.refl _)

theorem whitespace_alike {shape : Whitespace} {w : Value}
    (alike : (Value.object [(tagKey, .string shape.name)]).Alike w) :
    w = .object [(tagKey, .string shape.name)] := by
  cases alike with
  | object members permuted =>
    rcases members with _ | ⟨tag, ⟨⟩⟩
    obtain ⟨t, rfl, same⟩ := tag_alike tag
    obtain rfl := same.eq_of_single (by cases shape <;> decide)
    rw [List.singleton_perm.mp permuted]

/-! ### Attributes and the parts of an image -/

/-- Texts, and arrays of what is made of texts alone. -/
inductive Textual : Value → Prop
  | string (s : Text) : Textual (.string s)
  | array {vs : List Value} (items : ∀ v ∈ vs, Textual v) : Textual (.array vs)

theorem Textual.eq_of_alike {v w : Value} (textual : Textual v) (alike : v.Alike w) : w = v := by
  induction textual generalizing w with
  | string s => exact Value.string_alike.mp alike
  | @array vs items ih =>
    obtain ⟨ws, rfl, related⟩ := Value.array_alike.mp alike
    have each := (List.forall₂_and_left vs ws).mpr ⟨fun v mem w => @ih v mem w, related⟩
    have same : List.Forall₂ Eq vs ws := each.imp fun v w ⟨same, here⟩ => (same w here).symm
    rw [List.forall₂_eq_eq_eq] at same
    rw [same]

theorem textual_attributes (a : Attributes) : Textual a.encode := by
  have strings : ∀ v ∈ a.classes.map Value.string, Textual v := by
    rw [List.forall_mem_map]
    intro s _
    exact .string s
  have pairs : ∀ v ∈ a.pairs.map fun p => Value.array [.string p.1, .string p.2], Textual v := by
    rw [List.forall_mem_map]
    intro p _
    apply Textual.array
    simp [Textual.string]
  apply Textual.array
  simp [Textual.string, Textual.array strings, Textual.array pairs]

theorem attributes?_eq_of_alike {v w : Value} (alike : v.Alike w) :
    Attributes.decode? v = Attributes.decode? w := by
  apply Option.ext
  intro a
  simp only [Attributes.decode?_eq_some]
  constructor
  · rintro rfl
    exact (textual_attributes a).eq_of_alike alike
  · rintro rfl
    exact (textual_attributes a).eq_of_alike alike.symm

theorem string?_eq_of_alike {v w : Value} (alike : v.Alike w) : v.string? = w.string? := by
  cases alike <;> rfl

theorem array?_alike {v w : Value} (alike : v.Alike w) :
    List.Forall₂ Value.Alike (v.array?.getD []) (w.array?.getD []) := by
  cases alike with
  | array items => exact items
  | _ => exact .nil

section
variable {vs ws : List Value} (alike : List.Forall₂ Value.Alike vs ws)
include alike

theorem getElem?_bind_eq_of_alike {β : Type} {f : Value → Option β}
    (same : ∀ v w, v.Alike w → f v = f w) (i : Nat) : vs[i]?.bind f = ws[i]?.bind f := by
  induction alike generalizing i with
  | nil => rfl
  | cons here rest ih =>
    cases i with
    | zero => simpa using same _ _ here
    | succ i => simpa using ih i

theorem getElem?_array?_alike (i : Nat) :
    List.Forall₂ Value.Alike ((vs[i]?.bind Value.array?).getD [])
      ((ws[i]?.bind Value.array?).getD []) := by
  induction alike generalizing i with
  | nil => simp
  | cons here rest ih =>
    cases i with
    | zero => simpa using array?_alike here
    | succ i => simpa using ih i

theorem targetOf_eq_of_alike : targetOf vs = targetOf ws := by
  have parts := getElem?_array?_alike alike 2
  have text (i : Nat) := getElem?_bind_eq_of_alike parts (fun _ _ => string?_eq_of_alike) i
  simp only [targetOf, text]

theorem altOf_alike : List.Forall₂ Value.Alike (altOf vs) (altOf ws) := by
  rcases alike with _ | ⟨first, _ | ⟨second, rest⟩⟩
  · exact .nil
  · exact .nil
  · cases second with
    | array items => exact items
    | _ => exact .nil

end

/-! ### Typed shapes -/

section
variable {order : MemberOrder} {w : Value}

theorem paragraph_alike {name : Text} (known : IsParagraphTag name) {content : List Value}
    (alike : (tagged order name (.array content)).Alike w) :
    ∃ order' name' content', IsParagraphTag name' ∧ w = tagged order' name' (.array content') ∧
      List.Forall₂ Value.Alike content content' := by
  obtain ⟨order', name', payload, rfl, same, inside⟩ := tagged_alike alike
  obtain ⟨content', rfl, items⟩ := Value.array_alike.mp inside
  exact ⟨order', name', content', same.isParagraphTag known, rfl, items⟩

theorem text_alike {name : Text} (known : IsTextTag name) {content : Text}
    (alike : (tagged order name (.string content)).Alike w) :
    ∃ order' name', IsTextTag name' ∧ w = tagged order' name' (.string content) := by
  obtain ⟨order', name', payload, rfl, same, inside⟩ := tagged_alike alike
  obtain rfl := Value.string_alike.mp inside
  exact ⟨order', name', same.isTextTag known, rfl⟩

theorem single_alike {name : Text} {payload : Value}
    (single : ¬ (IsParagraphTag name ∨ IsTextTag name))
    (alike : (tagged order name payload).Alike w) :
    ∃ order' payload', w = tagged order' name payload' ∧ payload.Alike payload' := by
  obtain ⟨order', name', payload', rfl, same, inside⟩ := tagged_alike alike
  obtain rfl := same.eq_of_single single
  exact ⟨order', payload', rfl, inside⟩

theorem raw_alike {name format content : Text} (single : ¬ (IsParagraphTag name ∨ IsTextTag name))
    (alike : (tagged order name (.array [.string format, .string content])).Alike w) :
    ∃ order', w = tagged order' name (.array [.string format, .string content]) := by
  obtain ⟨order', payload', rfl, inside⟩ := single_alike single alike
  have textual : Textual (.array [.string format, .string content]) := by
    apply Textual.array
    simp [Textual.string]
  rw [textual.eq_of_alike inside]
  exact ⟨order', rfl⟩

theorem array_payload_alike {name : Text} {items : List Value}
    (single : ¬ (IsParagraphTag name ∨ IsTextTag name))
    (alike : (tagged order name (.array items)).Alike w) :
    ∃ order' items', w = tagged order' name (.array items') ∧
      List.Forall₂ Value.Alike items items' := by
  obtain ⟨order', payload, rfl, inside⟩ := single_alike single alike
  obtain ⟨items', rfl, related⟩ := Value.array_alike.mp inside
  exact ⟨order', items', rfl, related⟩

theorem div_alike {a : Attributes} {children : List Value}
    (alike : (tagged order "Div" (.array [a.encode, .array children])).Alike w) :
    ∃ order' children', w = tagged order' "Div" (.array [a.encode, .array children']) ∧
      List.Forall₂ Value.Alike children children' := by
  obtain ⟨order', items, rfl, related⟩ := array_payload_alike (by decide) alike
  rcases related with _ | ⟨attributes, _ | ⟨blocks, ⟨⟩⟩⟩
  obtain rfl := (textual_attributes a).eq_of_alike attributes
  obtain ⟨children', rfl, inside⟩ := Value.array_alike.mp blocks
  exact ⟨order', children', rfl, inside⟩

theorem figure_alike {a : Attributes} {caption : Value} {children : List Value}
    (alike : (tagged order "Figure" (.array [a.encode, caption, .array children])).Alike w) :
    ∃ order' caption' children',
      w = tagged order' "Figure" (.array [a.encode, caption', .array children']) ∧
      caption.Alike caption' ∧ List.Forall₂ Value.Alike children children' := by
  obtain ⟨order', items, rfl, related⟩ := array_payload_alike (by decide) alike
  rcases related with _ | ⟨attributes, _ | ⟨captions, _ | ⟨blocks, ⟨⟩⟩⟩⟩
  obtain rfl := (textual_attributes a).eq_of_alike attributes
  obtain ⟨children', rfl, inside⟩ := Value.array_alike.mp blocks
  exact ⟨order', _, children', rfl, captions, inside⟩

end

theorem typed_of_alike {v w : Value} (typed : Typed v) (alike : v.Alike w) : Typed w := by
  cases typed with
  | whitespace shape =>
    rw [whitespace_alike alike]
    exact .whitespace shape
  | paragraph known =>
    obtain ⟨_, _, _, known', rfl, -⟩ := paragraph_alike known alike
    exact .paragraph known' _ _
  | text known =>
    obtain ⟨_, _, known', rfl⟩ := text_alike known alike
    exact .text known' _ _
  | rawBlock =>
    obtain ⟨_, rfl⟩ := raw_alike (by decide) alike
    exact .rawBlock _ _ _
  | rawInline =>
    obtain ⟨_, rfl⟩ := raw_alike (by decide) alike
    exact .rawInline _ _ _
  | blockQuote =>
    obtain ⟨_, _, rfl, -⟩ := array_payload_alike (by decide) alike
    exact .blockQuote _ _
  | div =>
    obtain ⟨_, _, rfl, -⟩ := div_alike alike
    exact .div _ _ _
  | figure =>
    obtain ⟨_, _, _, rfl, -, -⟩ := figure_alike alike
    exact .figure _ _ _ _
  | image =>
    obtain ⟨_, _, rfl, -⟩ := array_payload_alike (by decide) alike
    exact .image _ _

/-! ### Reading -/

theorem decodeAll_alike_of_forall {vs ws : List Value} (alike : List.Forall₂ Value.Alike vs ws)
    (each : ∀ v ∈ vs, ∀ w, v.Alike w → (decode v).Alike (decode w)) :
    List.Forall₂ Alike (decodeAll vs) (decodeAll ws) := by
  rw [decodeAll_eq_map, decodeAll_eq_map, List.forall₂_map_left_iff, List.forall₂_map_right_iff]
  have both := (List.forall₂_and_left vs ws).mpr ⟨each, alike⟩
  exact both.imp fun v w ⟨same, here⟩ => same w here

theorem decode_alike {v w : Value} (alike : v.Alike w) : (decode v).Alike (decode w) := by
  induction v using shape_induction generalizing w with
  | whitespace shape =>
    rw [whitespace_alike alike, decode_whitespace]
    exact .whitespace shape _ _
  | paragraph order name content known ih =>
    obtain ⟨_, _, content', known', rfl, related⟩ := paragraph_alike known alike
    rw [decode_paragraph _ known, decode_paragraph _ known']
    exact .paragraph _ _ (decodeAll_alike_of_forall related fun v mem w => ih v mem) _ _
  | text order name content known =>
    obtain ⟨_, _, known', rfl⟩ := text_alike known alike
    rw [decode_text _ known, decode_text _ known']
    exact .text _ _ _ _ _
  | rawBlock order format content =>
    obtain ⟨_, rfl⟩ := raw_alike (by decide) alike
    rw [decode_rawBlock, decode_rawBlock]
    exact .rawBlock _ _ _ _
  | rawInline order format content =>
    obtain ⟨_, rfl⟩ := raw_alike (by decide) alike
    rw [decode_rawInline, decode_rawInline]
    exact .rawInline _ _ _ _
  | blockQuote order children ih =>
    obtain ⟨_, _, rfl, related⟩ := array_payload_alike (by decide) alike
    rw [decode_blockQuote, decode_blockQuote]
    exact .blockQuote (decodeAll_alike_of_forall related fun v mem w => ih v mem) _ _
  | div order a children ih =>
    obtain ⟨_, _, rfl, related⟩ := div_alike alike
    rw [decode_div, decode_div]
    exact .div _ (decodeAll_alike_of_forall related fun v mem w => ih v mem) _ _
  | figure order a caption children ih =>
    obtain ⟨_, _, _, rfl, captions, related⟩ := figure_alike alike
    rw [decode_figure, decode_figure]
    exact .figure _ captions (decodeAll_alike_of_forall related fun v mem w => ih v mem) _ _
  | image order parts ih =>
    obtain ⟨_, parts', rfl, related⟩ := array_payload_alike (by decide) alike
    have attributes :=
      getElem?_bind_eq_of_alike related (fun _ _ => attributes?_eq_of_alike) 0
    rw [decode_image, decode_image, imageOf, imageOf, attributes, targetOf_eq_of_alike related]
    exact .image _ (decodeAll_alike_of_forall (altOf_alike related) fun v mem w => ih v mem)
      _ _ _ _ _ _
  | untyped v untyped =>
    have untyped' : ¬ Typed w := fun typed => untyped (typed_of_alike typed alike.symm)
    rw [decode_of_not_typed untyped, decode_of_not_typed untyped']
    exact .verbatim alike

end RawLift.Node
