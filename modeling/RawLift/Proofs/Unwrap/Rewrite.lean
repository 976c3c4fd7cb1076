import RawLift.Proofs.Unwrap.Ruling

/-!
The two rewrites, each by itself and for any name of a format. An image that a lead wraps is written
as it would be without the lead, and only there does the angle rewrite give anything but the
paragraph or its flattened text.
-/

namespace RawLift

open Inlines

namespace Node

/-! ### Rewrites -/

/-- The inlines of a paragraph. -/
def inlines : Node → List Node
  | paragraph _ content _ => content
  | _ => []

/-- What a paragraph becomes, given what stops it and the markup for it: without markup it stays. -/
def rewritten (format : Text) (p : Node) (gap? : Option Gap) (markup? : Option Text) :
    Except Gap Node :=
  match gap?, markup? with
  | some gap, _ => .error gap
  | none, some markup => .ok (.rawBlock format markup)
  | none, none => .ok p

def rewriteAngle (requireSpace : Bool) (format : Text) (p : Node) : Except Gap Node :=
  rewritten format p (angleGap? requireSpace p.inlines) (angleMarkup? requireSpace p.inlines)

def rewriteImage (format : Text) (p : Node) : Except Gap Node :=
  rewritten format p (imageGap? p.inlines) (firstImage? p.inlines)

/-- The raw block that an image by itself becomes. -/
def imageBlock (format : Text) (image : Node) : Except Gap Node :=
  rewritten format image image.altGap? image.imageMarkup?

/-- The paragraph is a lead and one image, with nothing but whitespace around the image. -/
structure Wraps (requireSpace : Bool) (p : Node) (before : List Node) (image : Node)
    (after : List Node) : Prop where
  leads : p.isAngleParagraph requireSpace = true
  shape : ∃ tag s order, p.inlines = .text tag s order :: (before ++ image :: after)
  isImage : image.isImage = true
  white : ∀ n ∈ before ++ after, n.isWhitespace = true

end Node

/-! ### A session's rewrites -/

namespace Unwrap

theorem run_replace_fst (s : Session) (rule : Rule) (p : Node) (gap? : Option Gap)
    (markup? : Option Text) : (Step.run s (Session.replace rule gap? markup? p)).1 =
      p.rewritten s.options.format.name gap? markup? := by
  rw [Session.run_replace]
  cases gap? <;> cases markup? <;> rfl

/-- A session does to a paragraph what the rewrite of the rule does that claims it. -/
theorem tryBlock_eq_rewrite (s : Session) (tag : Text) (content : List Node)
    (order : MemberOrder) :
    let p := Node.paragraph tag content order
    (s.tryBlock p).1 = match s.options.rule? content with
      | some .angle => p.rewriteAngle s.options.requireSpace s.options.format.name
      | some .image => p.rewriteImage s.options.format.name
      | none => .ok p := by
  intro p
  rw [← Session.run_visit, Session.visit, Session.run_visitParagraph]
  cases s.options.rule? content with
  | none => rfl
  | some rule => cases rule <;> exact run_replace_fst s _ p _ _

end Unwrap

/-! ### Two routes to a tag -/

namespace Node

variable {requireSpace : Bool} {format : Text} {p image : Node} {before after : List Node}

/-- An image either stops its paragraph or has markup for it, so the paragraph never stays. -/
theorem rewritten_image (isImage : image.isImage = true) (p p' : Node) :
    rewritten format p image.altGap? image.imageMarkup? =
      rewritten format p' image.altGap? image.imageMarkup? := by
  cases image with
  | image => rfl
  | hollow shell => cases shell <;> first | rfl | cases isImage
  | _ => cases isImage

theorem imageBlock_cases (format : Text) (isImage : image.isImage = true) :
    imageBlock format image = .error .noList ∨
      ∃ markup, imageBlock format image = .ok (.rawBlock format markup) := by
  cases image with
  | image => exact .inr ⟨_, rfl⟩
  | hollow shell => cases shell <;> first | exact .inl rfl | cases isImage
  | _ => cases isImage

/-- Only an image without its alternative text stops a rewrite. -/
theorem exists_imageBlock_eq_ok (isImage : image.isImage = true) (whole : image.altGap? = none) :
    ∃ markup, imageBlock format image = .ok (.rawBlock format markup) := by
  refine (imageBlock_cases format isImage).resolve_left fun stopped => ?_
  rw [imageBlock, whole] at stopped
  cases markup : image.imageMarkup? <;> simp [rewritten, markup] at stopped

theorem rewriteImage_of_isImage (isImage : image.isImage = true) (tag : Text)
    (after : List Node) (order : MemberOrder) :
    rewriteImage format (.paragraph tag (image :: after) order) = imageBlock format image :=
  rewritten_image isImage _ _

theorem exists_content_of_isAngleParagraph (leads : p.isAngleParagraph requireSpace = true) :
    ∃ tag content order, p = .paragraph tag content order ∧
      hasAngleLead requireSpace content = true := by
  cases p with
  | paragraph tag content order => exact ⟨tag, content, order, rfl, leads⟩
  | _ => cases leads

namespace Wraps

variable (wraps : p.Wraps requireSpace before image after)
include wraps

theorem exists_inlines_eq : ∃ lead, p.inlines = lead :: (before ++ image :: after) ∧
    hasAngleLead requireSpace (lead :: (before ++ image :: after)) = true := by
  obtain ⟨tag, content, order, rfl, leads⟩ := exists_content_of_isAngleParagraph wraps.leads
  obtain ⟨tag', s, order', shape⟩ := wraps.shape
  exact ⟨_, shape, shape ▸ leads⟩

theorem rewriteAngle_eq : p.rewriteAngle requireSpace format = image.imageBlock format := by
  obtain ⟨lead, shape, leads⟩ := wraps.exists_inlines_eq
  rw [rewriteAngle, shape, angleGap?_of_image leads wraps.isImage wraps.white,
    angleMarkup?_of_image leads wraps.isImage wraps.white]
  exact rewritten_image wraps.isImage p image

theorem afterLead?_eq : afterLead? requireSpace p.inlines = some (image :: after) := by
  obtain ⟨lead, shape, leads⟩ := wraps.exists_inlines_eq
  rw [shape]
  exact (Option.filter_eq_some_iff.mp (afterLead?_of_image leads wraps.isImage wraps.white)).1

theorem isSingleImage_after : isSingleImage (image :: after) = true :=
  isSingleImage_iff.mpr
    ⟨image, after, rfl, wraps.isImage, (List.forall_mem_append.mp wraps.white).2⟩

theorem rewriteAngle_ne : p.rewriteAngle requireSpace format ≠ .ok p := by
  obtain ⟨tag, content, order, rfl, -⟩ := exists_content_of_isAngleParagraph wraps.leads
  rw [wraps.rewriteAngle_eq]
  rcases imageBlock_cases format wraps.isImage with stopped | ⟨markup, made⟩
  · simp [stopped]
  · simp [made]

theorem flatten?_eq_none : flatten? p.inlines = none := by
  obtain ⟨lead, shape, -⟩ := wraps.exists_inlines_eq
  rw [shape]
  exact flatten?_eq_none_iff.mpr ⟨image, by simp, plain?_of_isImage wraps.isImage⟩

end Wraps

/-- Without an image behind the lead, there is the flattened text or the paragraph. -/
theorem rewriteAngle_of_noImage (format tag : Text) {lead : Node} {rest : List Node}
    (order : MemberOrder) (leads : hasAngleLead requireSpace (lead :: rest) = true)
    (noImage : isSingleImage (rest.dropWhile isWhitespace) = false) :
    let p := Node.paragraph tag (lead :: rest) order
    p.rewriteAngle requireSpace format = match flatten? (lead :: rest) with
      | some t => .ok (.rawBlock format t)
      | none => .ok p := by
  intro p
  rw [rewriteAngle, inlines, angleGap?_of_noImage leads noImage,
    angleMarkup?_of_noImage leads noImage]
  cases flatten? (lead :: rest) <;> rfl

/-- The rewrite gives something that is neither the paragraph nor its flattened text. -/
def RewritesOtherwise (requireSpace : Bool) (format : Text) (p : Node) : Prop :=
  p.rewriteAngle requireSpace format ≠ .ok p ∧
    ∀ t, flatten? p.inlines = some t → p.rewriteAngle requireSpace format ≠ .ok (.rawBlock format t)

theorem exists_wraps_of_rewritesOtherwise (leads : p.isAngleParagraph requireSpace = true)
    (otherwise : p.RewritesOtherwise requireSpace format) :
    ∃ before image after, p.Wraps requireSpace before image after := by
  obtain ⟨tag, content, order, rfl, lead⟩ := exists_content_of_isAngleParagraph leads
  obtain ⟨tag', s, order', rest, rfl, -⟩ := hasAngleLead_iff.mp lead
  cases single : isSingleImage (rest.dropWhile isWhitespace) with
  | true =>
    obtain ⟨before, image, after, rfl, isImage, white⟩ := isSingleImage_dropWhile_iff.mp single
    exact ⟨before, image, after, leads, ⟨tag', s, order', rfl⟩, isImage, white⟩
  | false =>
    obtain ⟨notKept, notFlat⟩ := otherwise
    have made := rewriteAngle_of_noImage format tag order lead single
    cases flat : flatten? (.text tag' s order' :: rest) with
    | some t =>
      rw [flat] at made
      exact absurd made (notFlat t flat)
    | none =>
      rw [flat] at made
      exact absurd made notKept

/-- An image that a lead wraps becomes the raw block that it would become without the lead, and that
is the only way for the angle rewrite to give anything but the paragraph or its flattened text. -/
theorem rewriteAngle_eq_rewriteImage (requireSpace : Bool) (format : Text) (p : Node) :
    (∀ before image after, p.Wraps requireSpace before image after →
      p.rewriteAngle requireSpace format = image.imageBlock format ∧
      (∀ tag order, rewriteImage format (.paragraph tag (image :: after) order) =
        image.imageBlock format) ∧
      (image.altGap? = none →
        ∃ markup, image.imageBlock format = .ok (.rawBlock format markup))) ∧
    (p.isAngleParagraph requireSpace = true →
      (p.RewritesOtherwise requireSpace format ↔
        ∃ before image after, p.Wraps requireSpace before image after ∧
          afterLead? requireSpace p.inlines = some (image :: after) ∧
          isSingleImage (image :: after) = true ∧
          ∀ tag order, rewriteImage format (.paragraph tag (image :: after) order) =
            p.rewriteAngle requireSpace format)) := by
  refine ⟨fun before image after wraps => ?_, fun leads => ⟨fun otherwise => ?_, ?_⟩⟩
  · exact ⟨wraps.rewriteAngle_eq, fun tag => rewriteImage_of_isImage wraps.isImage tag after,
      exists_imageBlock_eq_ok wraps.isImage⟩
  · obtain ⟨before, image, after, wraps⟩ := exists_wraps_of_rewritesOtherwise leads otherwise
    refine ⟨before, image, after, wraps, wraps.afterLead?_eq, wraps.isSingleImage_after, ?_⟩
    intro tag order
    rw [rewriteImage_of_isImage wraps.isImage, wraps.rewriteAngle_eq]
  · rintro ⟨before, image, after, wraps, -⟩
    refine ⟨wraps.rewriteAngle_ne, fun t flat => ?_⟩
    rw [wraps.flatten?_eq_none] at flat
    cases flat

/-- A lead that ends with its run, an image behind a blank, and a break behind the image. -/
def wrapped : Node :=
  .paragraph "Para" [.text "Str" "<", .whitespace .space, .image (some {}) [] "a.png" [],
    .whitespace .softBreak]

theorem rewriteAngle_eq_rewriteImage_wrapped :
    ∃ before image after, wrapped.Wraps true before image after ∧
      wrapped.isAngleParagraph true = true ∧
      wrapped.rewriteAngle true "html" = .ok (.rawBlock "html" "<img src=\"a.png\" />") ∧
      image.imageBlock "html" = .ok (.rawBlock "html" "<img src=\"a.png\" />") ∧
      wrapped.RewritesOtherwise true "html" := by
  have wraps : wrapped.Wraps true [.whitespace .space] (.image (some {}) [] "a.png" [])
      [.whitespace .softBreak] := ⟨rfl, ⟨_, _, _, rfl⟩, rfl, by simp [isWhitespace]⟩
  obtain ⟨routes, otherwise⟩ := rewriteAngle_eq_rewriteImage true "html" wrapped
  have alike := (routes _ _ _ wraps).1
  refine ⟨_, _, _, wraps, rfl, alike, rfl, (otherwise rfl).mpr ⟨_, _, _, wraps, rfl, rfl, ?_⟩⟩
  exact fun tag order => rfl

end Node

end RawLift
