import RawLift.Proofs.Node.Alike
import RawLift.Proofs.Unwrap.Frame

/-!
Two runs over objects that say the same. The rules look at what nodes say and at nothing else, so
both runs raise the same paragraphs, to the same markup, and count the same.
-/

namespace RawLift

/-! ### Inlines and rules -/

namespace Node.Alike

variable {n m : Node} (alike : n.Alike m)
include alike

theorem isContainer_eq : n.isContainer = m.isContainer := by
  cases alike <;> rfl

theorem isWhitespace_eq : n.isWhitespace = m.isWhitespace := by
  cases alike <;> rfl

theorem isImage_eq : n.isImage = m.isImage := by
  cases alike <;> rfl

theorem plain?_eq : Inlines.plain? n = Inlines.plain? m := by
  cases alike with
  | whitespace shape => cases shape <;> rfl
  | _ => rfl

end Node.Alike

namespace Inlines

variable {ns ms : List Node} (alike : List.Forall₂ Node.Alike ns ms)
include alike

theorem flatten?_eq_of_alike : flatten? ns = flatten? ms := by
  induction alike with
  | nil => rfl
  | cons here _ ih => simp only [flatten?, here.plain?_eq, ih]

theorem head?_isWhitespace_eq_of_alike :
    ns.head?.map Node.isWhitespace = ms.head?.map Node.isWhitespace := by
  cases alike with
  | nil => rfl
  | cons here _ => simp only [List.head?_cons, Option.map_some, here.isWhitespace_eq]

theorem hasAngleLead_eq_of_alike (requireSpace : Bool) :
    hasAngleLead requireSpace ns = hasAngleLead requireSpace ms := by
  cases alike with
  | nil => rfl
  | cons here rest =>
    cases here with
    | text => simp only [hasAngleLead, head?_isWhitespace_eq_of_alike rest]
    | _ => rfl

theorem dropWhile_isWhitespace_alike :
    List.Forall₂ Node.Alike (ns.dropWhile Node.isWhitespace) (ms.dropWhile Node.isWhitespace) := by
  induction alike with
  | nil => exact .nil
  | cons here rest ih =>
    simp only [List.dropWhile_cons, here.isWhitespace_eq]
    split
    · exact ih
    · exact .cons here rest

theorem all_isWhitespace_eq_of_alike : ns.all Node.isWhitespace = ms.all Node.isWhitespace := by
  induction alike with
  | nil => rfl
  | cons here _ ih => simp only [List.all_cons, here.isWhitespace_eq, ih]

theorem isSingleImage_eq_of_alike : isSingleImage ns = isSingleImage ms := by
  cases alike with
  | nil => rfl
  | cons here rest =>
    simp only [isSingleImage, here.isImage_eq, all_isWhitespace_eq_of_alike rest]

theorem firstImage?_eq_of_alike : firstImage? ns = firstImage? ms := by
  cases alike with
  | nil => rfl
  | cons here _ =>
    cases here with
    | image a inside =>
      simp only [firstImage?, List.head?_cons, Option.bind_some, Node.imageMarkup?,
        flatten?_eq_of_alike inside]
    | _ => rfl

theorem angleMarkup?_eq_of_alike (requireSpace : Bool) :
    angleMarkup? requireSpace ns = angleMarkup? requireSpace ms := by
  have after : List.Forall₂ Node.Alike (ns.tail.dropWhile Node.isWhitespace)
      (ms.tail.dropWhile Node.isWhitespace) := by
    apply dropWhile_isWhitespace_alike
    cases alike with
    | nil => exact .nil
    | cons _ rest => exact rest
  have sameLead := hasAngleLead_eq_of_alike alike requireSpace
  have sameSingle := isSingleImage_eq_of_alike after
  rw [angleMarkup?, angleMarkup?, afterLead?, afterLead?, sameLead]
  by_cases lead : hasAngleLead requireSpace ms = true
  · rw [if_pos lead, if_pos lead, Option.filter_some, Option.filter_some, sameSingle]
    by_cases single : isSingleImage (ms.tail.dropWhile Node.isWhitespace) = true
    · rw [if_pos single, if_pos single]
      exact firstImage?_eq_of_alike after
    · rw [if_neg single, if_neg single]
      exact flatten?_eq_of_alike alike
  · rw [if_neg lead, if_neg lead]
    exact flatten?_eq_of_alike alike

end Inlines

namespace Unwrap

theorem Options.replacement?_eq_of_alike (o : Options) {ns ms : List Node}
    (alike : List.Forall₂ Node.Alike ns ms) : o.replacement? ns = o.replacement? ms := by
  simp only [replacement?, rule?, Inlines.hasAngleLead_eq_of_alike alike,
    Inlines.isSingleImage_eq_of_alike alike, Inlines.angleMarkup?_eq_of_alike alike,
    Inlines.firstImage?_eq_of_alike alike]

theorem Options.replacementOf?_eq_of_alike (o : Options) {n m : Node} (alike : n.Alike m) :
    o.replacementOf? n = o.replacementOf? m := by
  cases alike with
  | paragraph tag tag' inside order order' => exact o.replacement?_eq_of_alike inside
  | _ => rfl

/-! ### Blocks -/

open Node Value

/-- What holds of alike leaves, and of alike containers if it holds of their blocks in pairs, holds
of alike values. -/
theorem alike_induction {motive : Value → Value → Prop}
    (blockQuote : ∀ order order' {vs ws : List Value}, List.Forall₂ motive vs ws →
      motive (tagged order "BlockQuote" (.array vs)) (tagged order' "BlockQuote" (.array ws)))
    (div : ∀ order order' (a : Attributes) {vs ws : List Value}, List.Forall₂ motive vs ws →
      motive (tagged order "Div" (.array [a.encode, .array vs]))
        (tagged order' "Div" (.array [a.encode, .array ws])))
    (figure : ∀ order order' (a : Attributes) {c c' : Value} {vs ws : List Value}, c.Alike c' →
      List.Forall₂ motive vs ws →
      motive (tagged order "Figure" (.array [a.encode, c, .array vs]))
        (tagged order' "Figure" (.array [a.encode, c', .array ws])))
    (leaf : ∀ {v w : Value}, ¬ HoldsBlocks v → ¬ HoldsBlocks w → v.Alike w → motive v w)
    {v w : Value} (alike : v.Alike w) : motive v w := by
  have inside {vs ws : List Value} (related : List.Forall₂ Value.Alike vs ws)
      (ih : ∀ v ∈ vs, ∀ {w}, v.Alike w → motive v w) : List.Forall₂ motive vs ws := by
    have both := (List.forall₂_and_left vs ws).mpr ⟨fun v mem w => @ih v mem w, related⟩
    exact both.imp fun v w ⟨holds, here⟩ => holds w here
  induction v using holdsBlocks_induction generalizing w with
  | blockQuote order children ih =>
    obtain ⟨order', _, rfl, related⟩ := array_payload_alike (by decide) alike
    exact blockQuote order order' (inside related ih)
  | div order a children ih =>
    obtain ⟨order', _, rfl, related⟩ := div_alike alike
    exact div order order' a (inside related ih)
  | figure order a caption children ih =>
    obtain ⟨order', _, _, rfl, captions, related⟩ := figure_alike alike
    exact figure order order' a captions (inside related ih)
  | leaf v flat =>
    have flat' : ¬ HoldsBlocks w := by
      rwa [← isContainer_decode_iff, ← (decode_alike alike).isContainer_eq, isContainer_decode_iff]
    exact leaf flat flat' alike

/-- How one block before and after a run compares with another before and after a run of its own.
Containers are entered by both, paragraphs are raised by both to the same raw block, and what is
neither stays as it is in both. -/
inductive InStep (format : Text) : Value × Value → Value × Value → Prop
  | blockQuote (order order' : MemberOrder) {ps qs : List (Value × Value)}
      (inside : List.Forall₂ (InStep format) ps qs) :
      InStep format
        (tagged order "BlockQuote" (.array (ps.map Prod.fst)),
          tagged order "BlockQuote" (.array (ps.map Prod.snd)))
        (tagged order' "BlockQuote" (.array (qs.map Prod.fst)),
          tagged order' "BlockQuote" (.array (qs.map Prod.snd)))
  | div (order order' : MemberOrder) (a : Attributes) {ps qs : List (Value × Value)}
      (inside : List.Forall₂ (InStep format) ps qs) :
      InStep format
        (tagged order "Div" (.array [a.encode, .array (ps.map Prod.fst)]),
          tagged order "Div" (.array [a.encode, .array (ps.map Prod.snd)]))
        (tagged order' "Div" (.array [a.encode, .array (qs.map Prod.fst)]),
          tagged order' "Div" (.array [a.encode, .array (qs.map Prod.snd)]))
  | figure (order order' : MemberOrder) (a : Attributes) {c c' : Value} (captions : c.Alike c')
      {ps qs : List (Value × Value)} (inside : List.Forall₂ (InStep format) ps qs) :
      InStep format
        (tagged order "Figure" (.array [a.encode, c, .array (ps.map Prod.fst)]),
          tagged order "Figure" (.array [a.encode, c, .array (ps.map Prod.snd)]))
        (tagged order' "Figure" (.array [a.encode, c', .array (qs.map Prod.fst)]),
          tagged order' "Figure" (.array [a.encode, c', .array (qs.map Prod.snd)]))
  | raised {name name' : Text} (known : IsParagraphTag name) (known' : IsParagraphTag name')
      (order order' : MemberOrder) {content content' : List Value}
      (inside : List.Forall₂ Value.Alike content content') (s : Text) :
      InStep format
        (tagged order name (.array content),
          tagged .tagFirst "RawBlock" (.array [.string format, .string s]))
        (tagged order' name' (.array content'),
          tagged .tagFirst "RawBlock" (.array [.string format, .string s]))
  | kept {v w : Value} (flat : ¬ HoldsBlocks v) (flat' : ¬ HoldsBlocks w) (alike : v.Alike w) :
      InStep format (v, v) (w, w)

section
variable (o : Options)

/-- A value with what it is unwrapped to. -/
def beside (v : Value) : Value × Value := (v, value o v)

theorem map_fst_beside (vs : List Value) : (vs.map (beside o)).map Prod.fst = vs := by
  simp [beside, Function.comp_def]

theorem map_snd_beside (vs : List Value) :
    (vs.map (beside o)).map Prod.snd = vs.map (value o) := by
  simp [beside, Function.comp_def]

theorem inStep_beside {v w : Value} (alike : v.Alike w) :
    InStep o.format.name (beside o v) (beside o w) := by
  have pairs {vs ws : List Value} (inside : List.Forall₂
      (fun v w => InStep o.format.name (beside o v) (beside o w)) vs ws) :
      List.Forall₂ (InStep o.format.name) (vs.map (beside o)) (ws.map (beside o)) := by
    rwa [List.forall₂_map_left_iff, List.forall₂_map_right_iff]
  refine alike_induction (motive := fun v w => InStep o.format.name (beside o v) (beside o w))
    ?blockQuote ?div ?figure ?leaf alike
  case blockQuote =>
    intro order order' vs ws inside
    have both := InStep.blockQuote order order' (pairs inside)
    simpa only [beside, value_blockQuote, map_fst_beside, map_snd_beside] using both
  case div =>
    intro order order' a vs ws inside
    have both := InStep.div order order' a (pairs inside)
    simpa only [beside, value_div, map_fst_beside, map_snd_beside] using both
  case figure =>
    intro order order' a c c' vs ws captions inside
    have both := InStep.figure order order' a captions (pairs inside)
    simpa only [beside, value_figure, map_fst_beside, map_snd_beside] using both
  case leaf =>
    intro v w flat flat' alike
    have same := o.replacementOf?_eq_of_alike (decode_alike alike)
    rw [beside, beside]
    cases replaced : o.replacementOf? (decode v) with
    | none =>
      rw [value_of_kept flat replaced, value_of_kept flat' (same ▸ replaced)]
      exact .kept flat flat' alike
    | some r =>
      rw [value_of_replaced flat replaced, value_of_replaced flat' (same ▸ replaced)]
      obtain ⟨order, name, content, known, rfl, -⟩ := paragraph_of_replacementOf?_decode replaced
      obtain ⟨order', name', content', known', rfl, inside⟩ := paragraph_alike known alike
      exact .raised known known' order order' inside r.markup

theorem value_alike {v w : Value} (alike : v.Alike w) : (value o v).Alike (value o w) := by
  have items {vs ws : List Value}
      (inside : List.Forall₂ (fun v w => (value o v).Alike (value o w)) vs ws) :
      (Value.array (vs.map (value o))).Alike (.array (ws.map (value o))) := by
    rw [← List.forall₂_map_right_iff, ← List.forall₂_map_left_iff] at inside
    exact .array inside
  refine alike_induction (motive := fun v w => (value o v).Alike (value o w))
    ?blockQuote ?div ?figure ?leaf alike
  case blockQuote =>
    intro order order' vs ws inside
    rw [value_blockQuote, value_blockQuote]
    exact alike_tagged order order' (items inside)
  case div =>
    intro order order' a vs ws inside
    rw [value_div, value_div]
    apply alike_tagged order order'
    exact .array (.cons (.refl a.encode) (.cons (items inside) .nil))
  case figure =>
    intro order order' a c c' vs ws captions inside
    rw [value_figure, value_figure]
    apply alike_tagged order order'
    exact .array (.cons (.refl a.encode) (.cons captions (.cons (items inside) .nil)))
  case leaf =>
    intro v w flat flat' alike
    have same := o.replacementOf?_eq_of_alike (decode_alike alike)
    cases replaced : o.replacementOf? (decode v) with
    | none => rwa [value_of_kept flat replaced, value_of_kept flat' (same ▸ replaced)]
    | some r =>
      rw [value_of_replaced flat replaced, value_of_replaced flat' (same ▸ replaced)]
      exact .refl _

theorem flatMap_eq_of_forall₂ {α β : Type} {f : α → List β} {xs ys : List α}
    (same : List.Forall₂ (fun x y => f x = f y) xs ys) : xs.flatMap f = ys.flatMap f := by
  rw [← List.forall₂_map_right_iff, ← List.forall₂_map_left_iff, List.forall₂_eq_eq_eq] at same
  rw [List.flatMap_def, List.flatMap_def, same]

theorem filterMap_leaves_eq_of_alike {v w : Value} (alike : v.Alike w) :
    (leaves (decode v)).filterMap o.replacementOf? =
      (leaves (decode w)).filterMap o.replacementOf? := by
  refine alike_induction (motive := fun v w => (leaves (decode v)).filterMap o.replacementOf? =
      (leaves (decode w)).filterMap o.replacementOf?) ?blockQuote ?div ?figure ?leaf alike
  case blockQuote | div | figure =>
    intros
    simp only [decode_blockQuote, decode_div, decode_figure, leaves, leavesAll_eq_flatMap,
      decodeAll_eq_map, List.flatMap_map, List.filterMap_flatMap]
    apply flatMap_eq_of_forall₂
    assumption
  case leaf =>
    intro v w flat flat' alike
    rw [← isContainer_decode_iff, Bool.not_eq_true] at flat flat'
    rw [leaves_of_leaf flat, leaves_of_leaf flat', List.filterMap_cons, List.filterMap_cons,
      o.replacementOf?_eq_of_alike (decode_alike alike)]

theorem tally_eq_of_alike {vs ws : List Value} (alike : List.Forall₂ Value.Alike vs ws) :
    tally o (decodeAll vs) = tally o (decodeAll ws) := by
  have same : replacements o (decodeAll vs) = replacements o (decodeAll ws) := by
    simp only [replacements, leavesAll_eq_flatMap, decodeAll_eq_map, List.flatMap_map,
      List.filterMap_flatMap]
    exact flatMap_eq_of_forall₂ (alike.imp fun v w => filterMap_leaves_eq_of_alike o)
  rw [tally, tally, same]

end

/-! ### Objects -/

theorem mapArray_alike {f : List Value → List Value}
    (items : ∀ vs ws, List.Forall₂ Value.Alike vs ws → List.Forall₂ Value.Alike (f vs) (f ws))
    {v w : Value} (alike : v.Alike w) : (v.mapArray f).Alike (w.mapArray f) := by
  cases alike with
  | array related => exact .array (items _ _ related)
  | object members order => exact .object members order
  | _ => exact .refl _

theorem mapBlocks_alike {f : List Value → List Value}
    (items : ∀ vs ws, List.Forall₂ Value.Alike vs ws → List.Forall₂ Value.Alike (f vs) (f ws))
    {ms ns : Members} (alike : (Value.object ms).Alike (.object ns)) :
    (Value.object (ms.mapBlocks f)).Alike (.object (ns.mapBlocks f)) := by
  have differ : tagKey ≠ blocksKey := by decide
  cases alike with
  | object members order =>
    refine .object ?_ (order.map _)
    rw [Members.mapBlocks, List.forall₂_map_left_iff, List.forall₂_map_right_iff]
    refine members.imp fun m n here => ?_
    cases here with
    | value key alike =>
      by_cases isBlocks : key = blocksKey
      · simpa only [isBlocks, if_true] using .value blocksKey (mapArray_alike items alike)
      · simpa only [isBlocks, if_false] using .value key alike
    | paragraph first second => simpa only [differ, if_false] using .paragraph first second
    | text first second => simpa only [differ, if_false] using .text first second

theorem mem_of_forall₂ {α β : Type} {R : α → β → Prop} {xs : List α} {ys : List β}
    (related : List.Forall₂ R xs ys) {x : α} (mem : x ∈ xs) : ∃ y ∈ ys, R x y := by
  induction related with
  | nil => simp at mem
  | cons here _ ih =>
    rcases List.mem_cons.mp mem with rfl | mem
    · exact ⟨_, List.mem_cons_self, here⟩
    · obtain ⟨y, found, here⟩ := ih mem
      exact ⟨y, List.mem_cons_of_mem _ found, here⟩

theorem array_mem_of_alike {ms ns : Members} (alike : (Value.object ms).Alike (.object ns))
    {key : Text} {vs : List Value} (mem : (key, .array vs) ∈ ms) :
    ∃ ws, (key, .array ws) ∈ ns ∧ List.Forall₂ Value.Alike vs ws := by
  cases alike with
  | object members order =>
    obtain ⟨n, found, here⟩ := mem_of_forall₂ members mem
    cases here with
    | value _ alike =>
      obtain ⟨ws, rfl, related⟩ := array_alike.mp alike
      exact ⟨ws, order.subset found, related⟩

section
variable {ms ns : Members} (distinct : ms.keys.Nodup) (distinct' : ns.keys.Nodup)
  (alike : (Value.object ms).Alike (.object ns))
include distinct distinct' alike

theorem blocks_ofMembers_eq_none_of_alike (absent : (Document.ofMembers ms).blocks = none) :
    (Document.ofMembers ns).blocks = none := by
  rw [Option.eq_none_iff_forall_ne_some] at absent ⊢
  intro bs found
  obtain ⟨ws, mem, -⟩ := (Document.blocks_ofMembers_eq_some_iff distinct').mp found
  obtain ⟨vs, mem', -⟩ := array_mem_of_alike alike.symm mem
  exact absent _ ((Document.blocks_ofMembers_eq_some_iff distinct).mpr ⟨vs, mem', rfl⟩)

theorem documentTally_eq_of_alike (o : Options) :
    documentTally o (.ofMembers ms) = documentTally o (.ofMembers ns) := by
  rw [documentTally, documentTally]
  cases read : (Document.ofMembers ms).blocks with
  | none => rw [blocks_ofMembers_eq_none_of_alike distinct distinct' alike read]
  | some bs =>
    obtain ⟨vs, mem, rfl⟩ := (Document.blocks_ofMembers_eq_some_iff distinct).mp read
    obtain ⟨ws, mem', related⟩ := array_mem_of_alike alike mem
    have read' := (Document.blocks_ofMembers_eq_some_iff distinct').mpr ⟨ws, mem', rfl⟩
    rw [read', Option.getD_some, Option.getD_some, tally_eq_of_alike o related]

end

/-- Two objects that say the same are unwrapped to objects that say the same. Their blocks go in
step, so the same paragraphs are raised to the same raw blocks, and both runs count the same. -/
theorem tryMembers_alike (s : Session) {ms ms' : Members} (distinct : ms.keys.Nodup)
    (distinct' : ms'.keys.Nodup) (json : (Value.object ms).IsJson)
    (json' : (Value.object ms').IsJson) (alike : (Value.object ms).Alike (.object ms')) :
    ∃ ns ns' t, s.tryMembers ms = (.ok ns, t) ∧ s.tryMembers ms' = (.ok ns', t) ∧
      (Value.object ns).Alike (.object ns') ∧
      ∀ vs vs', (blocksKey, .array vs) ∈ ms → (blocksKey, .array vs') ∈ ms' →
        ∃ ps qs, ps.map Prod.fst = vs ∧ qs.map Prod.fst = vs' ∧
          (blocksKey, .array (ps.map Prod.snd)) ∈ ns ∧
          (blocksKey, .array (qs.map Prod.snd)) ∈ ns' ∧
          List.Forall₂ (InStep s.options.format.name) ps qs := by
  have first := s.tryMembers_eq distinct json
  have second := s.tryMembers_eq distinct' json'
  rw [← documentTally_eq_of_alike distinct distinct' alike] at second
  refine ⟨_, _, _, first, second, ?_, ?_⟩
  · apply mapBlocks_alike _ alike
    intro vs ws related
    rw [values_eq_map, values_eq_map, List.forall₂_map_left_iff, List.forall₂_map_right_iff]
    exact related.imp fun v w => value_alike s.options
  · intro vs vs' mem mem'
    refine ⟨vs.map (beside s.options), vs'.map (beside s.options), map_fst_beside _ vs,
      map_fst_beside _ vs', ?_, ?_, ?_⟩
    · rw [map_snd_beside, ← values_eq_map]
      exact Members.blocks_mem_mapBlocks.mpr ⟨vs, mem, rfl⟩
    · rw [map_snd_beside, ← values_eq_map]
      exact Members.blocks_mem_mapBlocks.mpr ⟨vs', mem', rfl⟩
    · obtain ⟨ws, found, related⟩ := array_mem_of_alike alike mem
      obtain rfl : ws = vs' := by
        have same := (Members.get?_eq_some_iff distinct').mpr found
        rw [(Members.get?_eq_some_iff distinct').mpr mem'] at same
        cases same
        rfl
      rw [List.forall₂_map_left_iff, List.forall₂_map_right_iff]
      exact related.imp fun v w => inStep_beside s.options

/-- A quoted paragraph with a lead, and metadata. -/
def quotedLead (order : MemberOrder) (paragraphTag textTag : Text) : Members :=
  let lead := tagged order textTag (.string "<br>")
  let quote := tagged order "BlockQuote" (.array [tagged order paragraphTag (.array [lead])])
  [(blocksKey, .array [quote]), (metadataKey, lead)]

/-- The other names of the tags, and the members the other way around at every depth. -/
theorem quotedLead_alike :
    (Value.object (quotedLead .tagFirst "Para" "Str")).Alike
      (.object (quotedLead .payloadFirst "Paragraph" "Text").reverse) := by
  have lead : (tagged .tagFirst "Str" (.string "<br>")).Alike
      (tagged .payloadFirst "Text" (.string "<br>")) := by
    refine .object (.cons ?_ (.cons ?_ .nil)) (.swap _ _ _)
    · exact .text (by decide) (by decide)
    · exact .value payloadKey (.string _)
  have paragraph :
      (tagged .tagFirst "Para" (.array [tagged .tagFirst "Str" (.string "<br>")])).Alike
        (tagged .payloadFirst "Paragraph"
          (.array [tagged .payloadFirst "Text" (.string "<br>")])) := by
    refine .object (.cons ?_ (.cons ?_ .nil)) (.swap _ _ _)
    · exact .paragraph (by decide) (by decide)
    · exact .value payloadKey (.array (.cons lead .nil))
  have quote : (tagged .tagFirst "BlockQuote" _).Alike (tagged .payloadFirst "BlockQuote" _) :=
    alike_tagged .tagFirst .payloadFirst (.array (.cons paragraph .nil))
  refine .object (.cons ?_ (.cons ?_ .nil)) (List.reverse_perm _).symm
  · exact .value blocksKey (.array (.cons quote .nil))
  · exact .value metadataKey lead

theorem tryMembers_alike_quotedLead :
    let ms := quotedLead .tagFirst "Para" "Str"
    let ms' : Members := (quotedLead .payloadFirst "Paragraph" "Text").reverse
    ms.keys.Nodup ∧ ms'.keys.Nodup ∧ (Value.object ms).IsJson ∧ (Value.object ms').IsJson ∧
      (Value.object ms).Alike (.object ms') ∧
      ∃ ns ns' t, Session.tryMembers {} ms = (.ok ns, t) ∧
        Session.tryMembers {} ms' = (.ok ns', t) ∧ (Value.object ns).Alike (.object ns') ∧
        ∀ vs vs', (blocksKey, .array vs) ∈ ms → (blocksKey, .array vs') ∈ ms' →
          ∃ ps qs, ps.map Prod.fst = vs ∧ qs.map Prod.fst = vs' ∧
            (blocksKey, .array (ps.map Prod.snd)) ∈ ns ∧
            (blocksKey, .array (qs.map Prod.snd)) ∈ ns' ∧
            List.Forall₂ (InStep "html") ps qs := by
  intro ms ms'
  have distinct : ms.keys.Nodup := by decide
  have distinct' : ms'.keys.Nodup := by decide
  have json : (Value.object ms).IsJson := by decide
  have json' : (Value.object ms').IsJson := by decide
  exact ⟨distinct, distinct', json, json', quotedLead_alike,
    tryMembers_alike {} distinct distinct' json json' quotedLead_alike⟩

end Unwrap

end RawLift
