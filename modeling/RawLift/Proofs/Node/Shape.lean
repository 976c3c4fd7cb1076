import RawLift.Node.Json

/-!
The shapes of JSON values that stand for typed nodes. Decoding takes a value of such a shape apart
and keeps every other value verbatim, so what holds of all values can be shown shape by shape.
-/

namespace RawLift

/-! ### Lists and tables -/

theorem mapM_eq_some_iff {α β : Type} {f : α → Option β} {g : β → α}
    (inverse : ∀ a b, f a = some b ↔ a = g b) (xs : List α) (ys : List β) :
    xs.mapM f = some ys ↔ xs = ys.map g := by
  induction xs generalizing ys with
  | nil => cases ys <;> simp
  | cons x xs ih =>
    simp only [List.mapM_cons, Option.bind_eq_bind, Option.pure_def, Option.bind_eq_some_iff,
      Option.some.injEq, ih, inverse]
    cases ys <;> simp [eq_comm]

theorem lookup_eq_some_iff_mem {β : Type} {table : List (Text × β)}
    (distinct : (table.map Prod.fst).Nodup) {key : Text} {value : β} :
    table.lookup key = some value ↔ (key, value) ∈ table := by
  induction table with
  | nil => simp
  | cons entry table ih =>
    obtain ⟨k, v⟩ := entry
    rw [List.map_cons, List.nodup_cons] at distinct
    by_cases same : key = k
    · subst same
      have absent : (key, value) ∉ table := by
        intro found
        exact distinct.1 (List.mem_map.mpr ⟨_, found, rfl⟩)
      simp [absent, eq_comm]
    · rw [List.lookup_cons, beq_eq_false_iff_ne.mpr same]
      simp [ih distinct.2, same]

namespace Value

@[simp] theorem string?_eq_some {v : Value} {t : Text} : v.string? = some t ↔ v = .string t := by
  cases v <;> simp [string?]

@[simp] theorem array?_eq_some {v : Value} {vs : List Value} :
    v.array? = some vs ↔ v = .array vs := by
  cases v <;> simp [array?]

theorem strings?_eq_some {v : Value} {ts : List Text} :
    v.strings? = some ts ↔ v = .array (ts.map .string) := by
  cases v with
  | array vs => simpa [strings?] using mapM_eq_some_iff (fun _ _ => string?_eq_some) vs ts
  | _ => simp [strings?]

theorem stringPair?_eq_some {v : Value} {p : Text × Text} :
    v.stringPair? = some p ↔ v = .array [.string p.1, .string p.2] := by
  fun_cases stringPair? v with
  | case1 a b => simp [Prod.ext_iff]
  | case2 v other =>
    refine iff_of_false (by simp) ?_
    rintro rfl
    exact other _ _ rfl

theorem sizeOf_lt_array {v : Value} {vs : List Value} (mem : v ∈ vs) :
    sizeOf v < sizeOf (array vs) := by
  have := List.sizeOf_lt_of_mem mem
  rw [array.sizeOf_spec]
  omega

end Value

/-! ### Attributes and tags -/

namespace Attributes

/-- The values that decode as attributes are those that attributes are written as. -/
theorem decode?_eq_some {v : Value} {a : Attributes} : decode? v = some a ↔ v = a.encode := by
  constructor
  · fun_cases decode? v with
    | case1 identifier classes pairs =>
      intro decoded
      simp only [Option.bind_eq_bind, Option.bind_eq_some_iff, Option.some.injEq] at decoded
      obtain ⟨cs, hc, ps, hp, rfl⟩ := decoded
      have pairsEq := (mapM_eq_some_iff (fun _ _ => Value.stringPair?_eq_some) _ _).mp hp
      rw [Value.strings?_eq_some.mp hc, pairsEq]
      rfl
    | case2 => simp
  · rintro rfl
    have classes : (Value.array (a.classes.map .string)).strings? = some a.classes :=
      Value.strings?_eq_some.mpr rfl
    have pairs := (mapM_eq_some_iff (fun _ _ => Value.stringPair?_eq_some) _ a.pairs).mpr rfl
    simp [encode, decode?, classes, pairs]

@[simp] theorem decode?_encode (a : Attributes) : decode? a.encode = some a :=
  decode?_eq_some.mpr rfl

end Attributes

theorem Tag.ofName?_eq_some {name : Text} {tag : Tag} :
    ofName? name = some tag ↔ (name, tag) ∈ names :=
  lookup_eq_some_iff_mem (by decide)

namespace Node

def IsParagraphTag (name : Text) : Prop := name = "Para" ∨ name = "Paragraph"

def IsTextTag (name : Text) : Prop := name = "Str" ∨ name = "Text"

instance (name : Text) : Decidable (IsParagraphTag name) := inferInstanceAs (Decidable (_ ∨ _))

instance (name : Text) : Decidable (IsTextTag name) := inferInstanceAs (Decidable (_ ∨ _))

theorem ofName?_paragraph {name : Text} :
    Tag.ofName? name = some .paragraph ↔ IsParagraphTag name := by
  simp [Tag.ofName?_eq_some, Tag.names, IsParagraphTag]

theorem ofName?_text {name : Text} : Tag.ofName? name = some .text ↔ IsTextTag name := by
  simp [Tag.ofName?_eq_some, Tag.names, IsTextTag]

/-! ### Shapes -/

/-- The values that stand for typed nodes. The parts of an image are free, and so is everything
that stands where a node of its own is decoded. -/
inductive Typed : Value → Prop
  | whitespace (shape : Whitespace) : Typed (.object [(tagKey, .string shape.name)])
  | paragraph {name : Text} (known : IsParagraphTag name) (order : MemberOrder)
      (content : List Value) : Typed (tagged order name (.array content))
  | text {name : Text} (known : IsTextTag name) (order : MemberOrder) (content : Text) :
      Typed (tagged order name (.string content))
  | rawBlock (order : MemberOrder) (format content : Text) :
      Typed (tagged order "RawBlock" (.array [.string format, .string content]))
  | rawInline (order : MemberOrder) (format content : Text) :
      Typed (tagged order "RawInline" (.array [.string format, .string content]))
  | blockQuote (order : MemberOrder) (children : List Value) :
      Typed (tagged order "BlockQuote" (.array children))
  | div (order : MemberOrder) (a : Attributes) (children : List Value) :
      Typed (tagged order "Div" (.array [a.encode, .array children]))
  | figure (order : MemberOrder) (a : Attributes) (caption : Value) (children : List Value) :
      Typed (tagged order "Figure" (.array [a.encode, caption, .array children]))
  | image (order : MemberOrder) (parts : List Value) : Typed (tagged order "Image" (.array parts))

theorem typed_of_decodePayload? {whole tag payload : Value} {order : MemberOrder} {n : Node}
    (decoded : decodePayload? whole order tag payload = some n) :
    ∃ name, tag = .string name ∧ Typed (tagged order name payload) := by
  revert decoded
  fun_cases decodePayload? whole order tag payload with
  | case2 items name htag known =>
    have paragraph := ofName?_paragraph.mp known
    exact fun _ => ⟨name, Value.string?_eq_some.mp htag, .paragraph paragraph _ _⟩
  | case3 items name htag known =>
    obtain rfl : name = "BlockQuote" := by simpa [Tag.ofName?_eq_some, Tag.names] using known
    exact fun _ => ⟨_, Value.string?_eq_some.mp htag, .blockQuote _ _⟩
  | case4 name htag known attributes children =>
    obtain rfl : name = "Div" := by simpa [Tag.ofName?_eq_some, Tag.names] using known
    intro decoded
    obtain ⟨a, ha, -⟩ := Option.map_eq_some_iff.mp decoded
    rw [Attributes.decode?_eq_some.mp ha]
    exact ⟨_, Value.string?_eq_some.mp htag, .div _ _ _⟩
  | case6 name htag known attributes caption children =>
    obtain rfl : name = "Figure" := by simpa [Tag.ofName?_eq_some, Tag.names] using known
    intro decoded
    obtain ⟨a, ha, -⟩ := Option.map_eq_some_iff.mp decoded
    rw [Attributes.decode?_eq_some.mp ha]
    exact ⟨_, Value.string?_eq_some.mp htag, .figure _ _ _ _⟩
  | case8 name htag known | case9 name htag known =>
    obtain rfl : name = "Image" := by simpa [Tag.ofName?_eq_some, Tag.names] using known
    exact fun _ => ⟨_, Value.string?_eq_some.mp htag, .image _ _⟩
  | case10 name htag known =>
    obtain rfl : name = "RawBlock" := by simpa [Tag.ofName?_eq_some, Tag.names] using known
    exact fun _ => ⟨_, Value.string?_eq_some.mp htag, .rawBlock _ _ _⟩
  | case12 name htag known =>
    obtain rfl : name = "RawInline" := by simpa [Tag.ofName?_eq_some, Tag.names] using known
    exact fun _ => ⟨_, Value.string?_eq_some.mp htag, .rawInline _ _ _⟩
  | case16 content name htag known =>
    have text := ofName?_text.mp known
    exact fun _ => ⟨name, Value.string?_eq_some.mp htag, .text text _ _⟩
  | _ => simp

theorem decode_of_not_typed {v : Value} (untyped : ¬ Typed v) : decode v = .verbatim v := by
  fun_cases decode v with
  | case1 k v w found =>
    split at found
    next isTag =>
      obtain ⟨name, hv, hw⟩ := Option.bind_eq_some_iff.mp found
      rw [Value.string?_eq_some.mp hv, Whitespace.ofName?_eq_some.mp hw, isTag] at untyped
      exact absurd (.whitespace w) untyped
    next => simp at found
  | case3 k v k' v' whole keys =>
    cases decoded : decodePayload? whole .tagFirst v v' with
    | none => rfl
    | some n =>
      obtain ⟨name, rfl, typed⟩ := typed_of_decodePayload? decoded
      rw [keys.1, keys.2] at untyped
      exact absurd typed untyped
  | case4 k v k' v' whole _ keys =>
    cases decoded : decodePayload? whole .payloadFirst v' v with
    | none => rfl
    | some n =>
      obtain ⟨name, rfl, typed⟩ := typed_of_decodePayload? decoded
      rw [keys.1, keys.2] at untyped
      exact absurd typed untyped
  | _ => rfl

/-! ### Decoding a shape -/

theorem decode_tagged (order : MemberOrder) (name : Text) (payload : Value) :
    decode (tagged order name payload) =
      (decodePayload? (tagged order name payload) order (.string name) payload).getD
        (.verbatim (tagged order name payload)) := by
  have differ : tagKey ≠ payloadKey := by decide
  cases order <;> simp [tagged, decode, differ, differ.symm]

@[simp] theorem decode_whitespace (shape : Whitespace) :
    decode (.object [(tagKey, .string shape.name)]) = .whitespace shape := by
  simp [decode, Value.string?]

section
variable (order : MemberOrder)

theorem decode_paragraph {name : Text} (known : IsParagraphTag name) (content : List Value) :
    decode (tagged order name (.array content)) = .paragraph name (decodeAll content) order := by
  rw [decode_tagged, decodePayload?.eq_def]
  simp only [Value.string?, ofName?_paragraph.mpr known, Option.getD_some]

theorem decode_text {name : Text} (known : IsTextTag name) (content : Text) :
    decode (tagged order name (.string content)) = .text name content order := by
  rw [decode_tagged, decodePayload?.eq_def]
  simp only [Value.string?, ofName?_text.mpr known, Option.getD_some]

@[simp] theorem decode_rawBlock (format content : Text) :
    decode (tagged order "RawBlock" (.array [.string format, .string content])) =
      .rawBlock format content order := by
  have known : Tag.ofName? "RawBlock" = some .rawBlock := by decide
  rw [decode_tagged, decodePayload?.eq_def]
  simp only [Value.string?, known, Option.getD_some]

@[simp] theorem decode_rawInline (format content : Text) :
    decode (tagged order "RawInline" (.array [.string format, .string content])) =
      .rawInline format content order := by
  have known : Tag.ofName? "RawInline" = some .rawInline := by decide
  rw [decode_tagged, decodePayload?.eq_def]
  simp only [Value.string?, known, Option.getD_some]

@[simp] theorem decode_blockQuote (children : List Value) :
    decode (tagged order "BlockQuote" (.array children)) =
      .blockQuote (decodeAll children) order := by
  have known : Tag.ofName? "BlockQuote" = some .blockQuote := by decide
  rw [decode_tagged, decodePayload?.eq_def]
  simp only [Value.string?, known, Option.getD_some]

@[simp] theorem decode_div (a : Attributes) (children : List Value) :
    decode (tagged order "Div" (.array [a.encode, .array children])) =
      .div (some a) (decodeAll children) order := by
  have known : Tag.ofName? "Div" = some .div := by decide
  rw [decode_tagged, decodePayload?.eq_def]
  simp only [Value.string?, known, Attributes.decode?_encode, Option.map_some, Option.getD_some]

@[simp] theorem decode_figure (a : Attributes) (caption : Value) (children : List Value) :
    decode (tagged order "Figure" (.array [a.encode, caption, .array children])) =
      .figure (some a) caption (decodeAll children) order := by
  have known : Tag.ofName? "Figure" = some .figure := by decide
  rw [decode_tagged, decodePayload?.eq_def]
  simp only [Value.string?, known, Attributes.decode?_encode, Option.map_some, Option.getD_some]

/-- The alternative text of an image, none if it is not there as an array. -/
def altOf : List Value → List Value
  | _ :: .array alt :: _ => alt
  | _ => []

@[simp] theorem decode_image (parts : List Value) :
    decode (tagged order "Image" (.array parts)) =
      imageOf (tagged order "Image" (.array parts)) order parts (decodeAll (altOf parts)) := by
  have known : Tag.ofName? "Image" = some .image := by decide
  rw [decode_tagged, decodePayload?.eq_def]
  simp only [Value.string?, known]
  fun_cases altOf parts with
  | case1 => rfl
  | case2 parts other =>
    split
    · next first alt rest => exact (other first alt rest rfl).elim
    · rfl

end

/-! ### Induction on shapes -/

theorem sizeOf_lt_tagged (order : MemberOrder) (name : Text) (payload : Value) :
    sizeOf payload < sizeOf (tagged order name payload) := by
  cases order <;> simp [tagged] <;> omega

theorem mem_of_mem_altOf {v : Value} {parts : List Value} (mem : v ∈ altOf parts) :
    ∃ alt, Value.array alt ∈ parts ∧ v ∈ alt := by
  fun_cases altOf parts with
  | case1 first alt rest => exact ⟨alt, by simp, mem⟩
  | case2 => simp [altOf] at mem

/-- What holds of each shape if it holds of the values that are decoded below it, and of all values
that stand for no typed node, holds of every value. -/
theorem shape_induction {motive : Value → Prop}
    (whitespace : ∀ shape : Whitespace, motive (.object [(tagKey, .string shape.name)]))
    (paragraph : ∀ order name content, IsParagraphTag name → (∀ v ∈ content, motive v) →
      motive (tagged order name (.array content)))
    (text : ∀ order name content, IsTextTag name → motive (tagged order name (.string content)))
    (rawBlock : ∀ order format content,
      motive (tagged order "RawBlock" (.array [.string format, .string content])))
    (rawInline : ∀ order format content,
      motive (tagged order "RawInline" (.array [.string format, .string content])))
    (blockQuote : ∀ order children, (∀ v ∈ children, motive v) →
      motive (tagged order "BlockQuote" (.array children)))
    (div : ∀ order (a : Attributes) children, (∀ v ∈ children, motive v) →
      motive (tagged order "Div" (.array [a.encode, .array children])))
    (figure : ∀ order (a : Attributes) caption children, (∀ v ∈ children, motive v) →
      motive (tagged order "Figure" (.array [a.encode, caption, .array children])))
    (image : ∀ order parts, (∀ v ∈ altOf parts, motive v) →
      motive (tagged order "Image" (.array parts)))
    (untyped : ∀ v, ¬ Typed v → motive v) (v : Value) : motive v := by
  induction size : sizeOf v using Nat.strongRecOn generalizing v with
  | _ n ih =>
  subst size
  -- Nodes of their own stand in an array that is the payload, or one of its items.
  have payload {order name vs} (here : v = tagged order name (.array vs)) :
      ∀ w ∈ vs, motive w := by
    intro w mem
    refine ih _ ?_ w rfl
    rw [here]
    exact Nat.lt_trans (Value.sizeOf_lt_array mem) (sizeOf_lt_tagged ..)
  have item {order name items vs} (here : v = tagged order name (.array items))
      (mem : Value.array vs ∈ items) : ∀ w ∈ vs, motive w := by
    intro w inner
    refine ih _ ?_ w rfl
    rw [here]
    exact Nat.lt_trans (Value.sizeOf_lt_array inner)
      (Nat.lt_trans (Value.sizeOf_lt_array mem) (sizeOf_lt_tagged ..))
  by_cases typed : Typed v
  · cases typed with
    | whitespace shape => exact whitespace shape
    | paragraph known order content => exact paragraph _ _ _ known (payload rfl)
    | text known order content => exact text _ _ _ known
    | rawBlock => exact rawBlock ..
    | rawInline => exact rawInline ..
    | blockQuote => exact blockQuote _ _ (payload rfl)
    | div => exact div _ _ _ (item rfl (by simp))
    | figure => exact figure _ _ _ _ (item rfl (by simp))
    | image order parts =>
      apply image
      intro w mem
      obtain ⟨alt, inside, mem⟩ := mem_of_mem_altOf mem
      exact item rfl inside w mem
  · exact untyped v typed

end Node

end RawLift
