import Mathlib.Data.List.Permutation
import Mathlib.Data.Set.List
import RawLift.Proofs.Node.RoundTrip

/-!
Which values stand for a node of which kind, said of the values alone: by the names of their members
in any order, the tag, and the shape of the payload. What stands in the place of a child plays no
part in it. An image is read part by part, each part with a default of its own.
-/

namespace RawLift

namespace Value

/-- A text, an array of texts and an array of pairs of texts. -/
def IsTriple (v : Value) : Prop :=
  ∃ identifier classes pairs, v = .array [.string identifier, .array classes, .array pairs] ∧
    (∀ c ∈ classes, ∃ s, c = .string s) ∧ ∀ p ∈ pairs, ∃ k s, p = .array [.string k, .string s]

theorem isTriple_iff {v : Value} : v.IsTriple ↔ ∃ a : Attributes, v = a.encode := by
  constructor
  · rintro ⟨identifier, classes, pairs, rfl, texts, textPairs⟩
    have classesMapped : classes ∈ Set.range (List.map Value.string) := by
      rw [Set.range_list_map]
      intro c mem
      obtain ⟨s, rfl⟩ := texts c mem
      exact ⟨s, rfl⟩
    have pairsMapped : pairs ∈
        Set.range (List.map fun p : Text × Text => Value.array [.string p.1, .string p.2]) := by
      rw [Set.range_list_map]
      intro p mem
      obtain ⟨k, s, rfl⟩ := textPairs p mem
      exact ⟨(k, s), rfl⟩
    obtain ⟨cs, rfl⟩ := classesMapped
    obtain ⟨ps, rfl⟩ := pairsMapped
    exact ⟨⟨identifier, cs, ps⟩, rfl⟩
  · rintro ⟨a, rfl⟩
    refine ⟨a.identifier, _, _, rfl, ?_, ?_⟩
    · rw [List.forall_mem_map]
      exact fun s _ => ⟨s, rfl⟩
    · rw [List.forall_mem_map]
      exact fun p _ => ⟨p.1, p.2, rfl⟩

end Value

namespace Node

/-! ### The grammar -/

/-- The tags, each with the kind that it names. -/
def kindTags : List (Text × Kind) :=
  [("Para", .paragraph), ("Paragraph", .paragraph), ("RawBlock", .rawBlock),
    ("BlockQuote", .blockQuote), ("Div", .div), ("Figure", .figure), ("Str", .text),
    ("Text", .text), ("Space", .space), ("SoftBreak", .softBreak), ("LineBreak", .lineBreak),
    ("RawInline", .rawInline), ("Image", .image)]

/-- The payload that a kind must come with; a blank or a break comes without one. -/
inductive Carried : Kind → Option Value → Prop
  | space : Carried .space none
  | softBreak : Carried .softBreak none
  | lineBreak : Carried .lineBreak none
  | paragraph (content : List Value) : Carried .paragraph (some (.array content))
  | blockQuote (children : List Value) : Carried .blockQuote (some (.array children))
  | text (content : Text) : Carried .text (some (.string content))
  | rawBlock (format content : Text) :
      Carried .rawBlock (some (.array [.string format, .string content]))
  | rawInline (format content : Text) :
      Carried .rawInline (some (.array [.string format, .string content]))
  | div {attributes : Value} (triple : attributes.IsTriple) (children : List Value) :
      Carried .div (some (.array [attributes, .array children]))
  | figure {attributes : Value} (triple : attributes.IsTriple) (caption : Value)
      (children : List Value) :
      Carried .figure (some (.array [attributes, caption, .array children]))
  | image (parts : List Value) : Carried .image (some (.array parts))

/-- The value stands for a node of the kind: it is an object whose members are just a tag of the
kind and the payload that the kind must come with, in either order. -/
def Stands (kind : Kind) (v : Value) : Prop :=
  ∃ name payload ms, (name, kind) ∈ kindTags ∧ Carried kind payload ∧ v = .object ms ∧
    ms.Perm ((tagKey, .string name) :: payload.toList.map (payloadKey, ·))

/-- Where in the payload of a kind the values of its children stand. -/
inductive ChildSlot : Kind → (List Value → Value) → Prop
  | paragraph : ChildSlot .paragraph .array
  | blockQuote : ChildSlot .blockQuote .array
  | div (attributes : Value) : ChildSlot .div fun vs => .array [attributes, .array vs]
  | figure (attributes caption : Value) :
      ChildSlot .figure fun vs => .array [attributes, caption, .array vs]
  | image (first : Value) (rest : List Value) :
      ChildSlot .image fun vs => .array (first :: .array vs :: rest)

/-- A part that is there in its form counts for what it says, any other for the default. -/
def ReadsAs {α : Type} (form : α → Value) (default : α) (part : Option Value) (a : α) : Prop :=
  part = some (form a) ∨ ((∀ b, part ≠ some (form b)) ∧ a = default)

/-- What an image has from the parts of its payload, each part read for itself. The url and the
title are parts of the third one. -/
structure ReadsImage (parts : List Value) (a : Attributes) (alt : List Value) (url title : Text) :
    Prop where
  attributes : ReadsAs Attributes.encode {} parts[0]? a
  alt : ReadsAs .array [] parts[1]? alt
  target : ∃ target, ReadsAs .array [] parts[2]? target ∧
    ReadsAs .string [] target[0]? url ∧ ReadsAs .string [] target[1]? title

/-! ### Tags and members -/

theorem kind_unique {name : Text} {kind kind' : Kind} (h : (name, kind) ∈ kindTags)
    (h' : (name, kind') ∈ kindTags) : kind = kind' := by
  have distinct : (kindTags.map Prod.fst).Nodup := by decide
  rw [← lookup_eq_some_iff_mem distinct] at h h'
  rw [h] at h'
  exact Option.some.inj h'

theorem exists_tagged_of_perm {ms : Members} {name : Text} {payload : Value}
    (members : ms.Perm [(tagKey, .string name), (payloadKey, payload)]) :
    ∃ order, Value.object ms = tagged order name payload := by
  rcases List.perm_pair.mp members with rfl | rfl
  · exact ⟨.tagFirst, rfl⟩
  · exact ⟨.payloadFirst, rfl⟩

theorem stands_of_carried {kind : Kind} {name : Text} {payload : Value}
    (known : (name, kind) ∈ kindTags) (carried : Carried kind (some payload))
    (order : MemberOrder) : Stands kind (tagged order name payload) := by
  cases order with
  | tagFirst => exact ⟨name, some payload, _, known, carried, rfl, .refl _⟩
  | payloadFirst => exact ⟨name, some payload, _, known, carried, rfl, .swap ..⟩

theorem stands_whitespace (shape : Whitespace) :
    Stands (Node.whitespace shape).kind (.object [(tagKey, .string shape.name)]) := by
  have bare {name : Text} {kind : Kind} (known : (name, kind) ∈ kindTags)
      (carried : Carried kind none) : Stands kind (.object [(tagKey, .string name)]) :=
    ⟨name, none, _, known, carried, rfl, .refl _⟩
  cases shape with
  | space => exact bare (by simp [kindTags, kind, Whitespace.name]) .space
  | softBreak => exact bare (by simp [kindTags, kind, Whitespace.name]) .softBreak
  | lineBreak => exact bare (by simp [kindTags, kind, Whitespace.name]) .lineBreak

/-! ### What is decoded -/

section
variable (order : MemberOrder) {name : Text} {kind : Kind} (known : (name, kind) ∈ kindTags)
include known

theorem kind_decode_tagged {payload : Value} (carried : Carried kind (some payload)) :
    (decode (tagged order name payload)).kind = kind := by
  cases carried with
  | paragraph content =>
    have paragraph : IsParagraphTag name := by simpa [kindTags, IsParagraphTag] using known
    rw [decode_paragraph order paragraph, Node.kind]
  | text content =>
    have text : IsTextTag name := by simpa [kindTags, IsTextTag] using known
    rw [decode_text order text, Node.kind]
  | blockQuote children =>
    obtain rfl : name = "BlockQuote" := by simpa [kindTags] using known
    rw [decode_blockQuote, Node.kind]
  | rawBlock format content =>
    obtain rfl : name = "RawBlock" := by simpa [kindTags] using known
    rw [decode_rawBlock, Node.kind]
  | rawInline format content =>
    obtain rfl : name = "RawInline" := by simpa [kindTags] using known
    rw [decode_rawInline, Node.kind]
  | div triple children =>
    obtain rfl : name = "Div" := by simpa [kindTags] using known
    obtain ⟨a, rfl⟩ := Value.isTriple_iff.mp triple
    rw [decode_div, Node.kind]
  | figure triple caption children =>
    obtain rfl : name = "Figure" := by simpa [kindTags] using known
    obtain ⟨a, rfl⟩ := Value.isTriple_iff.mp triple
    rw [decode_figure, Node.kind]
  | image parts =>
    obtain rfl : name = "Image" := by simpa [kindTags] using known
    rw [decode_image, imageOf, Node.kind]

theorem kind_decode_bare (carried : Carried kind none) :
    (decode (.object [(tagKey, .string name)])).kind = kind := by
  cases carried with
  | space =>
    obtain rfl : name = "Space" := by simpa [kindTags] using known
    exact congrArg Node.kind (decode_whitespace .space)
  | softBreak =>
    obtain rfl : name = "SoftBreak" := by simpa [kindTags] using known
    exact congrArg Node.kind (decode_whitespace .softBreak)
  | lineBreak =>
    obtain rfl : name = "LineBreak" := by simpa [kindTags] using known
    exact congrArg Node.kind (decode_whitespace .lineBreak)

end

theorem kind_decode_of_stands {kind : Kind} {v : Value} (stands : Stands kind v) :
    (decode v).kind = kind := by
  obtain ⟨name, payload, ms, known, carried, rfl, members⟩ := stands
  cases payload with
  | none =>
    obtain rfl := List.perm_singleton.mp members
    exact kind_decode_bare known carried
  | some payload =>
    obtain ⟨order, same⟩ := exists_tagged_of_perm members
    rw [same]
    exact kind_decode_tagged order known carried

theorem exists_stands_of_typed {v : Value} (typed : Typed v) : ∃ kind, Stands kind v := by
  have triple (a : Attributes) : a.encode.IsTriple := Value.isTriple_iff.mpr ⟨a, rfl⟩
  cases typed with
  | whitespace shape => exact ⟨_, stands_whitespace shape⟩
  | paragraph known order content =>
    refine ⟨_, stands_of_carried ?_ (.paragraph content) order⟩
    simpa [kindTags, IsParagraphTag] using known
  | text known order content =>
    refine ⟨_, stands_of_carried ?_ (.text content) order⟩
    simpa [kindTags, IsTextTag] using known
  | rawBlock order format content =>
    exact ⟨_, stands_of_carried (by simp [kindTags]) (.rawBlock format content) order⟩
  | rawInline order format content =>
    exact ⟨_, stands_of_carried (by simp [kindTags]) (.rawInline format content) order⟩
  | blockQuote order children =>
    exact ⟨_, stands_of_carried (by simp [kindTags]) (.blockQuote children) order⟩
  | div order a children =>
    exact ⟨_, stands_of_carried (by simp [kindTags]) (.div (triple a) children) order⟩
  | figure order a caption children =>
    exact ⟨_, stands_of_carried (by simp [kindTags]) (.figure (triple a) caption children) order⟩
  | image order parts =>
    exact ⟨_, stands_of_carried (by simp [kindTags]) (.image parts) order⟩

theorem decode_of_not_stands {v : Value} (none : ∀ kind, ¬ Stands kind v) :
    decode v = .verbatim v := by
  apply decode_of_not_typed
  intro typed
  obtain ⟨kind, stands⟩ := exists_stands_of_typed typed
  exact none kind stands

theorem kind_decode_eq_iff {v : Value} {kind : Kind} (typed : kind ≠ .verbatim) :
    (decode v).kind = kind ↔ Stands kind v := by
  refine ⟨fun same => ?_, kind_decode_of_stands⟩
  by_cases some : ∃ kind', Stands kind' v
  · obtain ⟨kind', stands⟩ := some
    rw [kind_decode_of_stands stands] at same
    rwa [← same]
  · rw [decode_of_not_stands (not_exists.mp some)] at same
    exact absurd same.symm typed

/-! ### Children -/

theorem tagged_inj {order order' : MemberOrder} {name name' : Text} {payload payload' : Value} :
    tagged order name payload = tagged order' name' payload' ↔
      order = order' ∧ name = name' ∧ payload = payload' := by
  have differ : tagKey ≠ payloadKey := by decide
  cases order <;> cases order' <;> simp [tagged, differ, differ.symm, and_comm]

theorem stands_tagged_iff {kind kind' : Kind} {name : Text} (known : (name, kind) ∈ kindTags)
    (order : MemberOrder) (payload : Value) :
    Stands kind' (tagged order name payload) ↔ kind' = kind ∧ Carried kind (some payload) := by
  constructor
  · rintro ⟨name', payload', ms, known', carried, same, members⟩
    cases payload' with
    | none =>
      obtain rfl := List.perm_singleton.mp members
      cases order <;> simp [tagged] at same
    | some payload' =>
      obtain ⟨order', same'⟩ := exists_tagged_of_perm members
      obtain ⟨-, rfl, rfl⟩ := tagged_inj.mp (same.trans same')
      obtain rfl := kind_unique known' known
      exact ⟨rfl, carried⟩
  · rintro ⟨rfl, carried⟩
    exact stands_of_carried known carried order

/-- The shape of a payload does not depend on the children in it. -/
theorem Carried.swap {kind : Kind} {slot : List Value → Value} (isSlot : ChildSlot kind slot)
    {vs : List Value} (carried : Carried kind (some (slot vs))) (ws : List Value) :
    Carried kind (some (slot ws)) := by
  cases isSlot with
  | paragraph => exact .paragraph ws
  | blockQuote => exact .blockQuote ws
  | div attributes =>
    cases carried with
    | div triple => exact .div triple ws
  | figure attributes caption =>
    cases carried with
    | figure triple => exact .figure triple caption ws
  | image first rest => exact .image _

theorem kind_decode_slot {kind : Kind} {slot : List Value → Value} (isSlot : ChildSlot kind slot)
    {name : Text} (known : (name, kind) ∈ kindTags) (order : MemberOrder) (vs ws : List Value) :
    (decode (tagged order name (slot vs))).kind = (decode (tagged order name (slot ws))).kind := by
  by_cases carried : Carried kind (some (slot vs))
  · rw [kind_decode_tagged order known carried,
      kind_decode_tagged order known (carried.swap isSlot ws)]
  · have untyped (us : List Value) (none : ¬ Carried kind (some (slot us))) :
        (decode (tagged order name (slot us))).kind = .verbatim := by
      rw [decode_of_not_stands]
      · rfl
      · intro kind' stands
        exact none ((stands_tagged_iff known order _).mp stands).2
    rw [untyped vs carried, untyped ws fun other => carried (other.swap isSlot vs)]

/-! ### Images -/

section
variable {α : Type} {form : α → Value} {read : Value → Option α}
  (inverse : ∀ v a, read v = some a ↔ v = form a) (default : α) (part : Option Value)
include inverse

/-- Reading a part if it is there, with a default. -/
theorem readsAs_getD : ReadsAs form default part ((part.bind read).getD default) := by
  cases here : part.bind read with
  | some a =>
    obtain ⟨v, rfl, found⟩ := Option.bind_eq_some_iff.mp here
    exact .inl (congrArg some ((inverse v a).mp found))
  | none =>
    refine .inr ⟨fun b same => ?_, rfl⟩
    rw [same, Option.bind_some, (inverse (form b) b).mpr rfl] at here
    cases here

end

theorem altOf_eq_getD (parts : List Value) :
    altOf parts = (parts[1]?.bind Value.array?).getD [] := by
  fun_cases altOf parts with
  | case1 first alt rest => rfl
  | case2 parts other =>
    rcases parts with _ | ⟨first, _ | ⟨second, rest⟩⟩
    · rfl
    · rfl
    · cases second with
      | array alt => exact absurd rfl (other first alt rest)
      | _ => rfl

theorem exists_readsImage (parts : List Value) : ∃ a url title,
    ReadsImage parts a (altOf parts) url title ∧
      ∀ whole order alt, imageOf whole order parts alt =
        .image (some a) alt url title (if isWholeImage parts then none else some whole) order := by
  have attributes : ∀ v a, Attributes.decode? v = some a ↔ v = a.encode :=
    fun _ _ => Attributes.decode?_eq_some
  have arrays : ∀ v vs, Value.array? v = some vs ↔ v = .array vs := fun _ _ => Value.array?_eq_some
  have strings : ∀ v t, Value.string? v = some t ↔ v = .string t := fun _ _ => Value.string?_eq_some
  refine ⟨_, _, _, ⟨readsAs_getD attributes _ _, ?_, _, readsAs_getD arrays _ _,
    readsAs_getD strings _ _, readsAs_getD strings _ _⟩, fun _ _ _ => rfl⟩
  rw [altOf_eq_getD]
  exact readsAs_getD arrays _ _

/-- The parts of an image alone give back its value if all of them were there and nothing else. -/
theorem encode_image_eq_iff {a : Attributes} {alt : List Node} {url title : Text}
    {order : MemberOrder} {parts : List Value}
    (decoded : decode (tagged order "Image" (.array parts)) = .image (some a) alt url title
      (if isWholeImage parts then none else some (tagged order "Image" (.array parts))) order) :
    encode (.image (some a) alt url title none order) = tagged order "Image" (.array parts) ↔
      isWholeImage parts = true := by
  constructor
  · intro written
    obtain ⟨-, -, same⟩ := tagged_inj.mp written
    exact isWholeImage_iff.mpr ⟨a, encodeAll alt, url, title, (Value.array.inj same).symm⟩
  · intro whole
    rw [if_pos whole] at decoded
    rw [← decoded, encode_decode]

theorem decode_image_parts (order : MemberOrder) (parts : List Value) :
    ∃ a alt url title source, ReadsImage parts a alt url title ∧
      decode (tagged order "Image" (.array parts)) =
        .image (some a) (alt.map decode) url title source order ∧
      (source = none ↔ encode (.image (some a) (alt.map decode) url title none order) =
        tagged order "Image" (.array parts)) ∧
      (source = none ∨ source = some (tagged order "Image" (.array parts))) := by
  obtain ⟨a, url, title, reads, shape⟩ := exists_readsImage parts
  have decoded := (decode_image order parts).trans (shape _ _ _)
  rw [decodeAll_eq_map] at decoded
  refine ⟨a, _, url, title, _, reads, decoded, ?_, ?_⟩
  · rw [encode_image_eq_iff decoded]
    cases isWholeImage parts <;> simp
  · cases isWholeImage parts <;> simp

/-- A value is decoded as a node of a kind exactly if it stands for one, and as it is if it stands
for none; children play no part in it. An image has each part for itself, and it remembers its value
exactly if its parts do not give the value back. -/
theorem decode_grammar (v : Value) :
    (∀ kind, kind ≠ .verbatim → ((decode v).kind = kind ↔ Stands kind v)) ∧
    ((∀ kind, ¬ Stands kind v) → decode v = .verbatim v) ∧
    (∀ kind slot, ChildSlot kind slot → ∀ name, (name, kind) ∈ kindTags → ∀ order children others,
      v = tagged order name (slot children) →
      (decode v).kind = (decode (tagged order name (slot others))).kind) ∧
    ∀ order parts, v = tagged order "Image" (.array parts) →
      ∃ a alt url title source, ReadsImage parts a alt url title ∧
        decode v = .image (some a) (alt.map decode) url title source order ∧
        (source = none ↔ encode (.image (some a) (alt.map decode) url title none order) = v) ∧
        (source = none ∨ source = some v) := by
  refine ⟨fun kind typed => kind_decode_eq_iff typed, decode_of_not_stands, ?_, ?_⟩
  · rintro kind slot isSlot name known order children others rfl
    exact kind_decode_slot isSlot known order children others
  · rintro order parts rfl
    exact decode_image_parts order parts

end Node

end RawLift
