import RawLift.Proofs.Unwrap.Tally

/-!
The two rules apart and together. No paragraph falls under both, and what one of them leaves or
makes is nothing to the other. So both at once do what one does after the other, in either order.
-/

namespace RawLift.Unwrap

open Inlines

namespace Options

def bothRules (o : Options) : Options := { o with angle := true, images := true }

def angleOnly (o : Options) : Options := { o with angle := true, images := false }

def imagesOnly (o : Options) : Options := { o with angle := false, images := true }

/-! ### One block -/

theorem gap?_eq_none_of_gap? {o : Options} {n : Node} (whole : o.gap? n = none) :
    n.gap? = none := by
  cases n with
  | paragraph => rfl
  | _ => exact whole

theorem inForce_of_replacementOf? {o : Options} {n : Node} {r : Replacement}
    (replaced : o.replacementOf? n = some r) :
    match r.rule with
    | .angle => o.angle = true
    | .image => o.images = true := by
  cases n with
  | paragraph tag content order =>
    rcases replacement?_cases replaced with ⟨angle, rule, -⟩ | ⟨image, rule, -⟩
    · rw [angle]
      exact (rule?_eq_angle.mp rule).1
    · rw [image]
      exact (rule?_eq_image rule).1
  | _ => cases replaced

/-- These options have nothing to do with the block. -/
structure Idle (o : Options) (n : Node) : Prop where
  kept : o.replacementOf? n = none
  gap : o.gap? n = n.gap?

/-- Both options do the same with the block. -/
structure AgreeOn (o o' : Options) (n : Node) : Prop where
  replaced : o.replacementOf? n = o'.replacementOf? n
  gap : o.gap? n = o'.gap? n

/-- Of any block, some options take care as the one or as the other pair of options does, and then
the remaining ones have nothing to do with it. -/
structure Splits (o first second : Options) : Prop where
  format_first : first.format = o.format
  format_second : second.format = o.format
  parts : ∀ n, o.AgreeOn first n ∧ second.Idle n ∨ o.AgreeOn second n ∧ first.Idle n

theorem Splits.symm {o first second : Options} (splits : o.Splits first second) :
    o.Splits second first :=
  ⟨splits.format_second, splits.format_first, fun n => (splits.parts n).symm⟩

theorem agreeOn_paragraph {o o' : Options} {content : List Node} (tag : Text)
    (order : MemberOrder) (rule : o.rule? content = o'.rule? content)
    (requireSpace : o.requireSpace = o'.requireSpace) :
    o.AgreeOn o' (.paragraph tag content order) := by
  constructor
  · simp only [replacementOf?, replacement?, rule, requireSpace]
  · simp only [gap?, rule, requireSpace]

theorem idle_paragraph {o : Options} {content : List Node} (tag : Text) (order : MemberOrder)
    (rule : o.rule? content = none) : o.Idle (.paragraph tag content order) := by
  constructor
  · simp only [replacementOf?, replacement?, rule]
  · simp only [gap?, rule, Node.gap?]

theorem splits_bothRules (o : Options) : o.bothRules.Splits o.angleOnly o.imagesOnly := by
  refine ⟨rfl, rfl, fun n => ?_⟩
  cases n with
  | paragraph tag content order =>
    -- The lead decides: with one the image rule is idle, without one the angle rule is.
    by_cases lead : hasAngleLead o.requireSpace content = true
    · have single := isSingleImage_of_hasAngleLead lead
      refine .inl ⟨agreeOn_paragraph tag order ?_ rfl, idle_paragraph tag order ?_⟩
      · simp [rule?, bothRules, angleOnly, lead]
      · simp [rule?, imagesOnly, single]
    · refine .inr ⟨agreeOn_paragraph tag order ?_ rfl, idle_paragraph tag order ?_⟩
      · simp [rule?, bothRules, imagesOnly, lead]
      · simp [rule?, angleOnly, lead]
  | _ => exact .inl ⟨⟨rfl, rfl⟩, ⟨rfl, rfl⟩⟩

theorem AgreeOn.leaf_eq {o o' : Options} {n : Node} (agree : o.AgreeOn o' n)
    (format : o.format = o'.format) : o.leaf n = o'.leaf n := by
  rw [leaf, leaf, agree.replaced, format]

theorem leaf_eq_or (o : Options) (n : Node) :
    o.leaf n = n ∨ ∃ format content, o.leaf n = .rawBlock format content := by
  cases replaced : o.replacementOf? n with
  | none => exact .inl (leaf_of_kept replaced)
  | some r => exact .inr ⟨_, _, leaf_of_replaced replaced⟩

section
variable {o first second : Options} (splits : o.Splits first second)
include splits

theorem Splits.leaf_leaf (n : Node) : first.leaf (second.leaf n) = o.leaf n := by
  rcases splits.parts n with ⟨agree, idle⟩ | ⟨agree, idle⟩
  · rw [leaf_of_kept idle.kept, agree.leaf_eq splits.format_first.symm]
  · rw [agree.leaf_eq splits.format_second.symm]
    rcases second.leaf_eq_or n with kept | ⟨format, content, raw⟩
    · rw [kept, leaf_of_kept idle.kept]
    · rw [raw, leaf_of_kept (replacementOf?_rawBlock first format content .tagFirst)]

theorem Splits.gap?_eq_none_iff (n : Node) :
    o.gap? n = none ↔ second.gap? n = none ∧ first.gap? (second.leaf n) = none := by
  rcases splits.parts n with ⟨agree, idle⟩ | ⟨agree, idle⟩
  · rw [leaf_of_kept idle.kept, idle.gap, agree.gap]
    exact ⟨fun whole => ⟨gap?_eq_none_of_gap? whole, whole⟩, And.right⟩
  · rw [agree.gap]
    refine ⟨fun whole => ⟨whole, ?_⟩, And.left⟩
    rcases second.leaf_eq_or n with kept | ⟨format, content, raw⟩
    · rw [kept, idle.gap, gap?_eq_none_of_gap? whole]
    · rw [raw]
      rfl

end

end Options

/-! ### Whole walks -/

/-- The blocks after a walk over them that starts counting anew, if no gap stops it. -/
def walk? (o : Options) (ns : List Node) : Option (List Node) :=
  (Session.tryBlocks { options := o } ns).1.toOption

/-- What such a walk counts. -/
def counted (o : Options) (ns : List Node) : Tally :=
  (Session.tryBlocks { options := o } ns).2.tally

theorem walk?_eq (o : Options) (ns : List Node) :
    walk? o ns = if gap? o ns = none then some (blocks o ns) else none := by
  rw [walk?, Session.tryBlocks]
  cases gap? o ns <;> rfl

theorem counted_of_gap?_eq_none {o : Options} {ns : List Node} (whole : gap? o ns = none) :
    counted o ns = tally o ns := by
  rw [counted, Session.tryBlocks_of_gap?_eq_none whole]
  exact Tally.zero_add (tally o ns)

section
variable {o first second : Options} (splits : o.Splits first second) (ns : List Node)
include splits

theorem blocks_split : blocks first (blocks second ns) = blocks o ns := by
  rw [blocks, blocks, blocks, Node.mapLeavesAll_mapLeavesAll second.isContainer_leaf]
  congr 1
  funext n
  exact splits.leaf_leaf n

theorem gap?_split :
    gap? o ns = none ↔ gap? second ns = none ∧ gap? first (blocks second ns) = none := by
  simp only [gap?, leavesAll_blocks, List.findSome?_map, List.findSome?_eq_none_iff,
    Function.comp_apply, splits.gap?_eq_none_iff]
  exact forall₂_and

theorem walk?_split : walk? o ns = (walk? second ns).bind (walk? first) := by
  rw [walk?_eq, walk?_eq]
  by_cases whole : gap? second ns = none
  · rw [if_pos whole, Option.bind_some, walk?_eq, blocks_split splits]
    simp only [gap?_split splits, whole, true_and]
  · rw [if_neg whole, if_neg fun none => whole ((gap?_split splits ns).mp none).1]
    rfl

end

/-- What counts for a rule counts so under the options that have it in force. -/
theorem countP_split {o first second : Options} (splits : o.Splits first second) {rule : Rule}
    (other : ∀ n r, second.replacementOf? n = some r → r.rule ≠ rule) (ns : List Node) :
    (replacements o ns).countP (·.rule = rule) =
      (replacements first ns).countP (·.rule = rule) := by
  simp only [replacements, List.countP_filterMap]
  congr 1
  funext n
  rcases splits.parts n with ⟨agree, -⟩ | ⟨agree, idle⟩
  · rw [agree.replaced]
  · rw [agree.replaced, idle.kept]
    cases replaced : second.replacementOf? n with
    | none => rfl
    | some r => simp [other n r replaced]

theorem tally_bothRules (o : Options) (ns : List Node) :
    tally o.bothRules ns = ⟨(tally o.angleOnly ns).angle, (tally o.imagesOnly ns).image⟩ := by
  have noAngle : ∀ n r, o.imagesOnly.replacementOf? n = some r → r.rule ≠ .angle := by
    rintro n ⟨_, markup⟩ replaced rfl
    cases Options.inForce_of_replacementOf? replaced
  have noImage : ∀ n r, o.angleOnly.replacementOf? n = some r → r.rule ≠ .image := by
    rintro n ⟨_, markup⟩ replaced rfl
    cases Options.inForce_of_replacementOf? replaced
  have splits := o.splits_bothRules
  rw [tally, countP_split splits noAngle, countP_split splits.symm noImage, tally, tally]

/-- Both rules at once do what one does after the other, in either order, and count what each
counts by itself. A gap that stops the one way of it stops the others. -/
theorem walk?_bothRules (o : Options) (ns : List Node) :
    walk? o.bothRules ns = (walk? o.imagesOnly ns).bind (walk? o.angleOnly) ∧
      walk? o.bothRules ns = (walk? o.angleOnly ns).bind (walk? o.imagesOnly) ∧
      (gap? o.bothRules ns = none → (walk? o.bothRules ns).isSome = true ∧
        counted o.bothRules ns =
          ⟨(counted o.angleOnly ns).angle, (counted o.imagesOnly ns).image⟩) := by
  have splits := o.splits_bothRules
  refine ⟨walk?_split splits ns, walk?_split splits.symm ns, fun whole => ?_⟩
  have wholeImages := ((gap?_split splits ns).mp whole).1
  have wholeAngle := ((gap?_split splits.symm ns).mp whole).1
  rw [counted_of_gap?_eq_none whole, counted_of_gap?_eq_none wholeAngle,
    counted_of_gap?_eq_none wholeImages, walk?_eq, if_pos whole]
  exact ⟨rfl, tally_bothRules o ns⟩

/-- An image behind a lead, an image by itself, and a lead in front of what cannot be flattened. -/
def quotedImages : List Node :=
  let image := Node.image (some {}) [] "a.png" []
  [.blockQuote [
    .paragraph "Para" [.text "Str" "<", .whitespace .space, image],
    .div (some {}) [.paragraph "Para" [image, .whitespace .softBreak]],
    .paragraph "Para" [.text "Str" "<b>", .verbatim .null]]]

theorem walk?_bothRules_quotedImages :
    let o : Options := {}
    gap? o.bothRules quotedImages = none ∧ (walk? o.bothRules quotedImages).isSome = true ∧
      counted o.bothRules quotedImages = ⟨1, 1⟩ := by
  have whole : gap? ({} : Options).bothRules quotedImages = none := rfl
  obtain ⟨returns, counts⟩ := (walk?_bothRules {} quotedImages).2.2 whole
  exact ⟨whole, returns, counts⟩

end RawLift.Unwrap
