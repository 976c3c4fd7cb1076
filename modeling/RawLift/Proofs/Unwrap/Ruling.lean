import RawLift.Proofs.Inlines.Flatten
import RawLift.Proofs.Unwrap.Omitted
import RawLift.Proofs.Unwrap.Visit

/-!
What becomes of a paragraph, read off its inlines. An image behind a lead comes before text that
can be flattened, that comes before an image by itself, and any other paragraph stays.
-/

namespace RawLift

namespace Inlines

/-! ### The three shapes -/

/-- A run with this text is a lead. If a space is required and is not in the run, there must be
whitespace right behind it. -/
def IsLead (requireSpace : Bool) (s : Text) (whiteNext : Prop) : Prop :=
  [angle] <+: s ∧ (requireSpace = true → [angle, .char ' '] <+: s ∨ (s = [angle] ∧ whiteNext))

/-- A lead and one image, with nothing but whitespace around the image. -/
def LeadsImage (requireSpace : Bool) (inlines : List Node) (image : Node) : Prop :=
  ∃ tag s order before after, inlines = .text tag s order :: (before ++ image :: after) ∧
    image.isImage = true ∧ (∀ n ∈ before ++ after, n.isWhitespace = true) ∧
    IsLead requireSpace s (before ≠ [])

/-- A lead comes first, and every inline stands for text; `t` is all of it. -/
def LeadsText (requireSpace : Bool) (inlines : List Node) (t : Text) : Prop :=
  (∃ tag s order rest, inlines = .text tag s order :: rest ∧
    IsLead requireSpace s (∃ n, rest.head? = some n ∧ n.isWhitespace = true)) ∧
  ∃ parts, List.Forall₂ Spells inlines parts ∧ t = parts.flatten

/-- One image, and behind it nothing but whitespace. -/
def IsImageAlone (inlines : List Node) (image : Node) : Prop :=
  ∃ after, inlines = image :: after ∧ image.isImage = true ∧ ∀ n ∈ after, n.isWhitespace = true

theorem hasAngleLead_text_iff {requireSpace : Bool} {tag s : Text} {order : MemberOrder}
    {rest : List Node} : hasAngleLead requireSpace (.text tag s order :: rest) = true ↔
      IsLead requireSpace s (∃ n, rest.head? = some n ∧ n.isWhitespace = true) := by
  have starts : s.head? = some angle ↔ [angle] <+: s := by
    cases s <;> simp [List.cons_prefix_cons, eq_comm]
  rw [hasAngleLead_iff, IsLead, ← starts]
  constructor
  · rintro ⟨_, _, _, _, ⟨⟩, head, space⟩
    exact ⟨head, space⟩
  · rintro ⟨head, space⟩
    exact ⟨tag, s, order, rest, rfl, head, space⟩

/-- Whitespace is right behind the lead if there is any before the image. -/
theorem whiteNext_iff {before after : List Node} {image : Node} (isImage : image.isImage = true)
    (white : ∀ n ∈ before ++ after, n.isWhitespace = true) :
    (∃ n, (before ++ image :: after).head? = some n ∧ n.isWhitespace = true) ↔ before ≠ [] := by
  cases before with
  | nil => simp [isWhitespace_of_isImage isImage]
  | cons n before => simpa using white n (by simp)

theorem leadsImage_iff {requireSpace : Bool} {inlines : List Node} {image : Node} :
    LeadsImage requireSpace inlines image ↔ hasAngleLead requireSpace inlines = true ∧
      ∃ lead before after, inlines = lead :: (before ++ image :: after) ∧ image.isImage = true ∧
        ∀ n ∈ before ++ after, n.isWhitespace = true := by
  constructor
  · rintro ⟨tag, s, order, before, after, rfl, isImage, white, lead⟩
    rw [← whiteNext_iff isImage white] at lead
    exact ⟨hasAngleLead_text_iff.mpr lead, _, before, after, rfl, isImage, white⟩
  · rintro ⟨leads, lead, before, after, rfl, isImage, white⟩
    obtain ⟨tag, s, order, rest, shape, -⟩ := hasAngleLead_iff.mp leads
    obtain ⟨rfl, -⟩ := List.cons.inj shape
    refine ⟨tag, s, order, before, after, rfl, isImage, white, ?_⟩
    rw [← whiteNext_iff isImage white]
    exact hasAngleLead_text_iff.mp leads

theorem leadsText_iff {requireSpace : Bool} {inlines : List Node} {t : Text} :
    LeadsText requireSpace inlines t ↔
      hasAngleLead requireSpace inlines = true ∧ flatten? inlines = some t := by
  rw [LeadsText, flatten?_eq_some_iff]
  apply and_congr_left
  intro _
  constructor
  · rintro ⟨tag, s, order, rest, rfl, lead⟩
    exact hasAngleLead_text_iff.mpr lead
  · intro leads
    obtain ⟨tag, s, order, rest, rfl, -⟩ := hasAngleLead_iff.mp leads
    exact ⟨tag, s, order, rest, rfl, hasAngleLead_text_iff.mp leads⟩

section
variable {requireSpace : Bool} {lead : Node}

/-- Behind a lead, an image is what stops the rule as well as what it writes. -/
theorem angleGap?_of_image {image : Node} {before after : List Node}
    (leads : hasAngleLead requireSpace (lead :: (before ++ image :: after)) = true)
    (isImage : image.isImage = true) (white : ∀ n ∈ before ++ after, n.isWhitespace = true) :
    angleGap? requireSpace (lead :: (before ++ image :: after)) = image.altGap? := by
  rw [angleGap?, afterLead?_of_image leads isImage white]
  rfl

theorem angleGap?_of_noImage {rest : List Node}
    (leads : hasAngleLead requireSpace (lead :: rest) = true)
    (noImage : isSingleImage (rest.dropWhile Node.isWhitespace) = false) :
    angleGap? requireSpace (lead :: rest) = none := by
  rw [angleGap?, afterLead?_of_noImage leads noImage]
  rfl

end

end Inlines

namespace Unwrap

open Inlines

/-! ### The decision -/

/-- The raw block of an image, for which its alternative text must be there as a list. -/
def Options.imageBlock (o : Options) (image : Node) : Except Gap Node :=
  match image.imageMarkup? with
  | some markup => .ok (.rawBlock o.format.name markup)
  | none => .error .noList

/-- What becomes of a paragraph: the first of the four cases that holds. -/
inductive Ruling (o : Options) (tag : Text) (content : List Node) (order : MemberOrder) :
    Except Gap Node → Prop
  | led {image : Node} : o.angle = true → LeadsImage o.requireSpace content image →
      Ruling o tag content order (o.imageBlock image)
  | flattened {t : Text} :
      ¬ (o.angle = true ∧ ∃ image, LeadsImage o.requireSpace content image) →
      o.angle = true → LeadsText o.requireSpace content t →
      Ruling o tag content order (.ok (.rawBlock o.format.name t))
  | alone {image : Node} :
      ¬ (o.angle = true ∧ ∃ image, LeadsImage o.requireSpace content image) →
      ¬ (o.angle = true ∧ ∃ t, LeadsText o.requireSpace content t) →
      o.images = true → IsImageAlone content image →
      Ruling o tag content order (o.imageBlock image)
  | kept : ¬ (o.angle = true ∧ ∃ image, LeadsImage o.requireSpace content image) →
      ¬ (o.angle = true ∧ ∃ t, LeadsText o.requireSpace content t) →
      ¬ (o.images = true ∧ ∃ image, IsImageAlone content image) →
      Ruling o tag content order (.ok (.paragraph tag content order))

theorem exists_ruling (o : Options) (tag : Text) (content : List Node) (order : MemberOrder) :
    ∃ r, Ruling o tag content order r := by
  by_cases led : o.angle = true ∧ ∃ image, LeadsImage o.requireSpace content image
  · obtain ⟨on, image, leads⟩ := led
    exact ⟨_, .led on leads⟩
  by_cases flattened : o.angle = true ∧ ∃ t, LeadsText o.requireSpace content t
  · obtain ⟨on, t, leads⟩ := flattened
    exact ⟨_, .flattened led on leads⟩
  by_cases alone : o.images = true ∧ ∃ image, IsImageAlone content image
  · obtain ⟨on, image, single⟩ := alone
    exact ⟨_, .alone led flattened on single⟩
  · exact ⟨_, .kept led flattened alone⟩

section
variable {s : Session} {tag : Text} {content : List Node} {order : MemberOrder}

theorem tryBlock_of_angle (on : s.options.angle = true)
    (leads : hasAngleLead s.options.requireSpace content = true) :
    s.tryBlock (.paragraph tag content order) =
      Step.run s (Session.replace .angle (angleGap? s.options.requireSpace content)
        (angleMarkup? s.options.requireSpace content) (.paragraph tag content order)) := by
  rw [← Session.run_visit, Session.visit, Session.run_visitParagraph,
    Options.rule?_eq_angle.mpr ⟨on, leads⟩]

theorem tryBlock_of_image (on : s.options.images = true) (single : isSingleImage content = true) :
    s.tryBlock (.paragraph tag content order) =
      Step.run s (Session.replace .image (imageGap? content) (firstImage? content)
        (.paragraph tag content order)) := by
  rw [← Session.run_visit, Session.visit, Session.run_visitParagraph,
    Options.rule?_of_isSingleImage on single]

theorem run_replace_image (rule : Rule) (p : Node) {image : Node} (isImage : image.isImage = true) :
    (Step.run s (Session.replace rule image.altGap? image.imageMarkup? p)).1 =
      s.options.imageBlock image := by
  cases image with
  | image => rfl
  | hollow shell => cases shell <;> first | rfl | cases isImage
  | _ => cases isImage

/-- A lead without an image behind it. -/
theorem noImage_of_not_led (on : s.options.angle = true)
    (led : ¬ (s.options.angle = true ∧ ∃ image, LeadsImage s.options.requireSpace content image))
    (leads : hasAngleLead s.options.requireSpace content = true) :
    ∃ lead rest, content = lead :: rest ∧
      isSingleImage (rest.dropWhile Node.isWhitespace) = false := by
  obtain ⟨_, _, _, rest, rfl, -⟩ := hasAngleLead_iff.mp leads
  refine ⟨_, rest, rfl, ?_⟩
  rw [← Bool.not_eq_true, isSingleImage_dropWhile_iff]
  rintro ⟨before, image, after, rfl, isImage, white⟩
  exact led ⟨on, image, leadsImage_iff.mpr ⟨leads, _, before, after, rfl, isImage, white⟩⟩

theorem tryBlock_of_ruling {r : Except Gap Node} (ruling : Ruling s.options tag content order r) :
    (s.tryBlock (.paragraph tag content order)).1 = r := by
  cases ruling with
  | led on leadsImage =>
    obtain ⟨leads, lead, before, after, rfl, isImage, white⟩ := leadsImage_iff.mp leadsImage
    rw [tryBlock_of_angle on leads, angleGap?_of_image leads isImage white,
      angleMarkup?_of_image leads isImage white, run_replace_image .angle _ isImage]
  | flattened led on leadsText =>
    obtain ⟨leads, flat⟩ := leadsText_iff.mp leadsText
    obtain ⟨lead, rest, rfl, noImage⟩ := noImage_of_not_led on led leads
    rw [tryBlock_of_angle on leads, angleGap?_of_noImage leads noImage,
      angleMarkup?_of_noImage leads noImage, flat]
    rfl
  | alone _ _ on single =>
    obtain ⟨after, rfl, isImage, white⟩ := single
    have alone := isSingleImage_iff.mpr ⟨_, after, rfl, isImage, white⟩
    rw [tryBlock_of_image on alone]
    exact run_replace_image .image _ isImage
  | kept led flattened alone =>
    -- The angle rule may still claim the paragraph, but then it finds no markup for it.
    cases rule : s.options.rule? content with
    | none =>
      rw [← Session.run_visit, Session.visit, Session.run_visitParagraph, rule]
    | some r =>
      cases r with
      | angle =>
        obtain ⟨on, leads⟩ := Options.rule?_eq_angle.mp rule
        obtain ⟨lead, rest, rfl, noImage⟩ := noImage_of_not_led on led leads
        rw [tryBlock_of_angle on leads, angleGap?_of_noImage leads noImage,
          angleMarkup?_of_noImage leads noImage]
        cases flat : flatten? (lead :: rest) with
        | none => rfl
        | some t => exact absurd ⟨on, t, leadsText_iff.mpr ⟨leads, flat⟩⟩ flattened
      | image =>
        obtain ⟨on, single⟩ := Options.rule?_eq_image rule
        obtain ⟨image, after, shape, isImage, white⟩ := isSingleImage_iff.mp single
        exact absurd ⟨on, image, after, shape, isImage, white⟩ alone

theorem tryBlock_starts (s : Session) (tag : Text) (content : List Node) (order : MemberOrder) :
    (s.tryBlock (.paragraph tag content order)).1 = .ok (.paragraph tag content order) ∨
      (∃ gap, (s.tryBlock (.paragraph tag content order)).1 = .error gap) ∨
      ∃ t, (s.tryBlock (.paragraph tag content order)).1 =
        .ok (.rawBlock s.options.format.name (angle :: t)) := by
  rw [s.tryBlock_leaf rfl]
  cases s.options.gap? (.paragraph tag content order) with
  | some gap => exact .inr (.inl ⟨gap, rfl⟩)
  | none =>
    cases replaced : s.options.replacement? content with
    | none => exact .inl (congrArg Except.ok (Options.leaf_of_kept replaced))
    | some r =>
      obtain ⟨t, markup⟩ := List.head?_eq_some_iff.mp (Options.head?_of_replacement? replaced)
      refine .inr (.inr ⟨t, ?_⟩)
      rw [← markup]
      exact congrArg Except.ok (Options.leaf_of_replaced replaced)

end

/-- A paragraph becomes exactly what the four cases say. It stays as it is, or an image without its
list stops the session, or a raw block of the chosen format takes its place that starts with `<`. -/
theorem tryBlock_paragraph_iff (s : Session) (tag : Text) (content : List Node)
    (order : MemberOrder) :
    let result := (s.tryBlock (.paragraph tag content order)).1
    (∀ r, result = r ↔ Ruling s.options tag content order r) ∧
      (result = .ok (.paragraph tag content order) ∨ (∃ gap, result = .error gap) ∨
        ∃ t, result = .ok (.rawBlock s.options.format.name (angle :: t))) := by
  refine ⟨fun r => ?_, tryBlock_starts s tag content order⟩
  obtain ⟨r', ruling⟩ := exists_ruling s.options tag content order
  constructor
  · rintro rfl
    rwa [tryBlock_of_ruling ruling]
  · exact tryBlock_of_ruling

end Unwrap

end RawLift
