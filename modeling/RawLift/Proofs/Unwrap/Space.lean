import RawLift.Proofs.Blocks.Outline
import RawLift.Proofs.Unwrap.Rules

/-!
What the required space changes. A lead with the space is one without the requirement too, and is
stripped to the same, so a walk that requires it can only keep a paragraph that is replaced
otherwise. It never replaces another one, or one by something else.
-/

namespace RawLift

/-! ### Outlines of changed leaves -/

namespace Node

/-- The line with the change in its block, if that is no container. -/
def Line.mapLeaf (f : Node → Node) (line : Line) : Line where
  around := line.around
  block := if line.block.isContainer then line.block else f line.block

theorem outline_mapLeavesAll {f : Node → Node}
    (keeps : ∀ n, n.isContainer = false → (f n).isContainer = false) (around : List Kind)
    (ns : List Node) :
    outline around (mapLeavesAll f ns) = (outline around ns).map (Line.mapLeaf f) := by
  induction ns using forest_induction generalizing around with
  | nil => rfl
  | cons n ns below behind =>
    rw [mapLeavesAll, outline_cons, outline_cons, List.map_cons, List.map_append, behind]
    by_cases leaf : n.isContainer = false
    · simp [mapLeaves_of_leaf leaf, withChildren_of_leaf leaf, withChildren_of_leaf (keeps n leaf),
        children_of_leaf leaf, children_of_leaf (keeps n leaf), Line.mapLeaf, leaf]
    · rw [← below]
      cases n with
      | blockQuote | div | figure => rfl
      | _ => exact absurd rfl leaf

end Node

namespace Unwrap

open Inlines Node

namespace Options

/-! ### One block -/

/-- The same options, and the space is required. -/
def spaced (o : Options) : Options := { o with requireSpace := true }

theorem narrower_spaced (o : Options) : o.spaced.Narrower o := ⟨id, id, fun _ => rfl⟩

theorem hasAngleLead_of_spaced {o : Options} {content : List Node}
    (lead : hasAngleLead o.spaced.requireSpace content = true) :
    hasAngleLead o.requireSpace content = true :=
  hasAngleLead_mono o.narrower_spaced.requireSpace lead

theorem rule?_of_spaced {o : Options} {content : List Node} {rule : Rule}
    (claimed : o.spaced.rule? content = some rule) : o.rule? content = some rule := by
  cases rule with
  | angle =>
    obtain ⟨on, lead⟩ := rule?_eq_angle.mp claimed
    exact rule?_eq_angle.mpr ⟨on, hasAngleLead_of_spaced lead⟩
  | image =>
    obtain ⟨on, single⟩ := rule?_eq_image claimed
    exact rule?_of_isSingleImage on single

/-- The image rule does not look at leads, and what it claims has none. -/
theorem rule?_spaced_eq_image {o : Options} {content : List Node} :
    o.spaced.rule? content = some .image ↔ o.rule? content = some .image := by
  refine ⟨rule?_of_spaced, fun claimed => ?_⟩
  obtain ⟨on, single⟩ := rule?_eq_image claimed
  exact rule?_of_isSingleImage on single

/-- Once there is a lead with the space, the rest is as without the requirement. -/
theorem replacement?_of_spaced {o : Options} {content : List Node} {r : Replacement}
    (replaced : o.spaced.replacement? content = some r) : o.replacement? content = some r := by
  obtain ⟨rule, markup⟩ := r
  rcases replacement?_cases replaced with ⟨rfl, claimed, made⟩ | ⟨rfl, claimed, made⟩
  · have lead := (rule?_eq_angle.mp claimed).2
    rw [angleMarkup?_eq_of_lead lead (hasAngleLead_of_spaced lead)] at made
    simp only [replacement?, rule?_of_spaced claimed, made, Option.map_some]
  · simp only [replacement?, rule?_of_spaced claimed, made, Option.map_some]

theorem replacementOf?_of_spaced {o : Options} {n : Node} {r : Replacement}
    (replaced : o.spaced.replacementOf? n = some r) : o.replacementOf? n = some r := by
  cases n with
  | paragraph => exact replacement?_of_spaced replaced
  | _ => cases replaced

theorem replacementOf?_spaced_image {o : Options} {n : Node} {markup : Text}
    (replaced : o.replacementOf? n = some ⟨.image, markup⟩) :
    o.spaced.replacementOf? n = some ⟨.image, markup⟩ := by
  cases n with
  | paragraph tag content order =>
    rcases replacement?_cases replaced with ⟨other, -⟩ | ⟨-, claimed, made⟩
    · cases other
    · simp only [replacementOf?, replacement?, rule?_spaced_eq_image.mpr claimed, made,
        Option.map_some]
  | _ => cases replaced

theorem gap?_spaced {o : Options} {n : Node} (whole : o.gap? n = none) :
    o.spaced.gap? n = none := by
  cases n with
  | paragraph tag content order =>
    rw [gap?] at whole ⊢
    cases claimed : o.spaced.rule? content with
    | none => rfl
    | some rule =>
      rw [rule?_of_spaced claimed] at whole
      cases rule with
      | angle =>
        have lead := (rule?_eq_angle.mp claimed).2
        simp only [angleGap?, afterLead?, lead, hasAngleLead_of_spaced lead] at whole ⊢
        exact whole
      | image => exact whole
  | _ => exact whole

/-! ### Places -/

theorem kind_of_replacementOf? {o : Options} {n : Node} {r : Replacement}
    (replaced : o.replacementOf? n = some r) : n.kind = .paragraph := by
  cases n with
  | paragraph => rfl
  | _ => cases replaced

/-- A block, and what the walk that requires the space and the walk that does not make of it. -/
inductive Compared (o : Options) : Node → Node → Node → Prop
  | other {n : Node} (kind : n.kind ≠ .paragraph) : Compared o n n n
  | keptByBoth {n : Node} (kind : n.kind = .paragraph) : Compared o n n n
  | keptForSpace {n : Node} (kind : n.kind = .paragraph) (markup : Text) :
    Compared o n n (.rawBlock o.format.name markup)
  | replaced {n : Node} (kind : n.kind = .paragraph) (markup : Text) :
    Compared o n (.rawBlock o.format.name markup) (.rawBlock o.format.name markup)

theorem compared_leaf (o : Options) (n : Node) : o.Compared n (o.spaced.leaf n) (o.leaf n) := by
  cases strict : o.spaced.replacementOf? n with
  | some r =>
    rw [leaf_of_replaced strict, leaf_of_replaced (replacementOf?_of_spaced strict)]
    exact .replaced (kind_of_replacementOf? strict) r.markup
  | none =>
    rw [leaf_of_kept strict]
    cases loose : o.replacementOf? n with
    | some r =>
      rw [leaf_of_replaced loose]
      exact .keptForSpace (kind_of_replacementOf? loose) r.markup
    | none =>
      rw [leaf_of_kept loose]
      by_cases kind : n.kind = .paragraph
      · exact .keptByBoth kind
      · exact .other kind

/-- The outlines of a forest and of what the two walks make of it: as many lines, in the same
containers, and block by block as compared. -/
inductive Aligned (o : Options) : List Line → List Line → List Line → Prop
  | nil : Aligned o [] [] []
  | cons (around : List Kind) {n strict loose : Node} {lines stricts looses : List Line}
    (first : o.Compared n strict loose) (rest : o.Aligned lines stricts looses) :
    Aligned o (⟨around, n⟩ :: lines) (⟨around, strict⟩ :: stricts) (⟨around, loose⟩ :: looses)

theorem kind_of_isContainer {n : Node} (container : n.isContainer = true) :
    n.kind ≠ .paragraph := by
  cases n with
  | blockQuote | div | figure => exact nofun
  | _ => cases container

theorem aligned_mapLeaf (o : Options) (lines : List Line) :
    o.Aligned lines (lines.map (.mapLeaf o.spaced.leaf)) (lines.map (.mapLeaf o.leaf)) := by
  induction lines with
  | nil => exact .nil
  | cons line lines ih =>
    refine .cons line.around ?_ ih
    split
    next container =>
      exact .other (kind_of_isContainer container)
    next => exact o.compared_leaf line.block

end Options

/-! ### Whole walks -/

section
variable (o : Options) (ns : List Node)

theorem gap?_spaced_blocks (whole : gap? o ns = none) : gap? o.spaced ns = none := by
  rw [gap?, List.findSome?_eq_none_iff] at whole ⊢
  exact fun n mem => Options.gap?_spaced (whole n mem)

theorem angle_tally_spaced : (tally o.spaced ns).angle ≤ (tally o ns).angle := by
  simp only [tally, replacements, List.countP_filterMap]
  apply List.countP_mono_left
  intro n _ counted
  cases replaced : o.spaced.replacementOf? n with
  | none => simp [replaced] at counted
  | some r => simpa [replaced, Options.replacementOf?_of_spaced replaced] using counted

theorem image_tally_spaced : (tally o.spaced ns).image = (tally o ns).image := by
  simp only [tally, replacements, List.countP_filterMap]
  congr 1
  funext n
  cases loose : o.replacementOf? n with
  | none =>
    cases strict : o.spaced.replacementOf? n with
    | none => rfl
    | some r => simp [Options.replacementOf?_of_spaced strict] at loose
  | some r =>
    obtain ⟨rule, markup⟩ := r
    cases rule with
    | image => rw [Options.replacementOf?_spaced_image loose]
    | angle =>
      cases strict : o.spaced.replacementOf? n with
      | none => rfl
      | some r => rw [← Options.replacementOf?_of_spaced strict, loose]

end

/-- With the space required, a walk keeps some of the paragraphs that it would replace without, and
does the same elsewhere. It never replaces one by an image instead. -/
theorem walk?_spaced {o : Options} {ns : List Node} (whole : gap? o ns = none) :
    ∃ strict loose, walk? o.spaced ns = some strict ∧ walk? o ns = some loose ∧
      o.Aligned (outline [] ns) (outline [] strict) (outline [] loose) ∧
      (counted o.spaced ns).angle ≤ (counted o ns).angle ∧
      (counted o.spaced ns).image = (counted o ns).image := by
  have wholeStrict := gap?_spaced_blocks o ns whole
  refine ⟨blocks o.spaced ns, blocks o ns, ?_, ?_, ?_, ?_⟩
  · rw [walk?_eq, if_pos wholeStrict]
  · rw [walk?_eq, if_pos whole]
  · rw [blocks, blocks, outline_mapLeavesAll o.spaced.isContainer_leaf,
      outline_mapLeavesAll o.isContainer_leaf]
    exact o.aligned_mapLeaf (outline [] ns)
  · rw [counted_of_gap?_eq_none whole, counted_of_gap?_eq_none wholeStrict]
    exact ⟨angle_tally_spaced o ns, image_tally_spaced o ns⟩

/-- In a quote: a lead with the space, one without, and an image. -/
def quotedLeads : List Node :=
  [.blockQuote [
    .paragraph "Para" [.text "Str" "< b"],
    .paragraph "Para" [.text "Str" "<b>"],
    .paragraph "Para" [.image none [] "a.png" []]]]

theorem walk?_spaced_quotedLeads :
    let o : Options := {}
    gap? o quotedLeads = none ∧ ∃ strict loose, walk? o.spaced quotedLeads = some strict ∧
      walk? o quotedLeads = some loose ∧
      o.Aligned (outline [] quotedLeads) (outline [] strict) (outline [] loose) ∧
      counted o.spaced quotedLeads = ⟨1, 1⟩ ∧ counted o quotedLeads = ⟨2, 1⟩ := by
  intro o
  have whole : gap? o quotedLeads = none := rfl
  obtain ⟨strict, loose, strictWalk, looseWalk, aligned, -⟩ := walk?_spaced whole
  exact ⟨whole, strict, loose, strictWalk, looseWalk, aligned, rfl, rfl⟩

end Unwrap

end RawLift
