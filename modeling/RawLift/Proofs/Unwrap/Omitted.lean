import Mathlib.Data.List.TakeWhile
import RawLift.Proofs.Inlines.Flatten
import RawLift.Proofs.Unwrap.Paragraph

/-!
What the markup of a replaced paragraph leaves unsaid. Flattened inlines are all in it. The tag of
an image stands for that image alone: the whitespace around it goes, and under the angle rule
the leading run goes as well, whatever it holds behind the `<`.
-/

namespace RawLift

/-- The marker of the angle rule by itself: `<` and behind it nothing but spaces. -/
def Node.IsMarker : Node → Prop
  | .text _ s _ => s.head? = some Inlines.angle ∧ ∀ p ∈ s.tail, p = .char ' '
  | _ => False

instance (n : Node) : Decidable n.IsMarker := by
  unfold Node.IsMarker
  split <;> infer_instance

namespace Inlines

theorem isSingleImage_iff {inlines : List Node} :
    isSingleImage inlines = true ↔ ∃ image after, inlines = image :: after ∧
      image.isImage = true ∧ ∀ n ∈ after, n.isWhitespace = true := by
  cases inlines with
  | nil => simp [isSingleImage]
  | cons first rest =>
    simp only [isSingleImage, Bool.and_eq_true, List.all_eq_true, List.cons.injEq]
    constructor
    · rintro ⟨image, white⟩
      exact ⟨first, rest, ⟨rfl, rfl⟩, image, white⟩
    · rintro ⟨_, _, ⟨rfl, rfl⟩, image, white⟩
      exact ⟨image, white⟩

theorem isWhitespace_of_isImage {n : Node} (image : n.isImage = true) : n.isWhitespace = false := by
  cases n with
  | image | hollow => rfl
  | _ => cases image

theorem dropWhile_isWhitespace_append {before after : List Node} {image : Node}
    (white : ∀ n ∈ before, n.isWhitespace = true) (isImage : image.isImage = true) :
    (before ++ image :: after).dropWhile Node.isWhitespace = image :: after := by
  rw [List.dropWhile_append_of_pos white,
    List.dropWhile_cons_of_neg (by simp [isWhitespace_of_isImage isImage])]

theorem isSingleImage_dropWhile_iff {inlines : List Node} :
    isSingleImage (inlines.dropWhile Node.isWhitespace) = true ↔
      ∃ before image after, inlines = before ++ image :: after ∧ image.isImage = true ∧
        ∀ n ∈ before ++ after, n.isWhitespace = true := by
  rw [isSingleImage_iff]
  constructor
  · rintro ⟨image, after, shape, isImage, white⟩
    refine ⟨inlines.takeWhile Node.isWhitespace, image, after, ?_, isImage, ?_⟩
    · rw [← shape, List.takeWhile_append_dropWhile]
    · exact List.forall_mem_append.mpr ⟨fun n mem => List.mem_takeWhile_imp mem, white⟩
  · rintro ⟨before, image, after, rfl, isImage, white⟩
    obtain ⟨whiteBefore, whiteAfter⟩ := List.forall_mem_append.mp white
    exact ⟨image, after, dropWhile_isWhitespace_append whiteBefore isImage, isImage, whiteAfter⟩

theorem plain?_of_isImage {n : Node} (image : n.isImage = true) : plain? n = none := by
  cases n with
  | image | hollow => rfl
  | _ => cases image

theorem isImage_of_imageMarkup? {n : Node} {markup : Text}
    (written : n.imageMarkup? = some markup) : n.isImage = true := by
  cases n with
  | image | hollow => simp_all [Node.imageMarkup?, Node.isImage]
  | _ => cases written

/-- How markup stands for inlines: it is all of them flattened, or the tag of one image among them,
and then those before and after the image are omitted. -/
inductive Written : List Node → Text → List Node → Prop where
  | flattened {inlines markup} : flatten? inlines = some markup → Written inlines markup []
  | tag {before image after markup} : image.imageMarkup? = some markup →
      Written (before ++ image :: after) markup (before ++ after)

theorem Written.head_mem {lead : Node} {rest omitted : List Node} {markup : Text}
    (rendered : Written (lead :: rest) markup omitted) (rich : flatten? (lead :: rest) = none)
    (noImage : lead.isImage = false) : lead ∈ omitted := by
  generalize shape : lead :: rest = inlines at rendered
  cases rendered with
  | flattened flat => simp [← shape, rich] at flat
  | @tag before image after _ written =>
    cases before with
    | nil =>
      obtain ⟨rfl, rfl⟩ := List.cons.inj shape
      simp [isImage_of_imageMarkup? written] at noImage
    | cons first more =>
      obtain ⟨rfl, -⟩ := List.cons.inj shape
      exact List.mem_cons_self

section
variable {requireSpace : Bool} {lead : Node}

/-- What both the markup and the gap of the angle rule are found in, if there is an image. -/
theorem afterLead?_of_image {image : Node} {before after : List Node}
    (leads : hasAngleLead requireSpace (lead :: (before ++ image :: after)) = true)
    (isImage : image.isImage = true) (white : ∀ n ∈ before ++ after, n.isWhitespace = true) :
    (afterLead? requireSpace (lead :: (before ++ image :: after))).filter isSingleImage =
      some (image :: after) := by
  obtain ⟨whiteBefore, whiteAfter⟩ := List.forall_mem_append.mp white
  have single : isSingleImage (image :: after) = true :=
    isSingleImage_iff.mpr ⟨image, after, rfl, isImage, whiteAfter⟩
  rw [afterLead?, if_pos leads, List.tail_cons, dropWhile_isWhitespace_append whiteBefore isImage,
    Option.filter_some_pos single]

theorem afterLead?_of_noImage {rest : List Node}
    (leads : hasAngleLead requireSpace (lead :: rest) = true)
    (noImage : isSingleImage (rest.dropWhile Node.isWhitespace) = false) :
    (afterLead? requireSpace (lead :: rest)).filter isSingleImage = none := by
  rw [afterLead?, if_pos leads, List.tail_cons, Option.filter_some_neg noImage]

/-- Behind a lead, one image between whitespace is written as its tag. -/
theorem angleMarkup?_of_image {image : Node} {before after : List Node}
    (leads : hasAngleLead requireSpace (lead :: (before ++ image :: after)) = true)
    (isImage : image.isImage = true) (white : ∀ n ∈ before ++ after, n.isWhitespace = true) :
    angleMarkup? requireSpace (lead :: (before ++ image :: after)) = image.imageMarkup? := by
  rw [angleMarkup?, afterLead?_of_image leads isImage white]
  rfl

/-- Whatever else is behind a lead is flattened with it. -/
theorem angleMarkup?_of_noImage {rest : List Node}
    (leads : hasAngleLead requireSpace (lead :: rest) = true)
    (noImage : isSingleImage (rest.dropWhile Node.isWhitespace) = false) :
    angleMarkup? requireSpace (lead :: rest) = flatten? (lead :: rest) := by
  rw [angleMarkup?, afterLead?_of_noImage leads noImage]

end

/-- Behind the lead there is one image with nothing but whitespace around it. -/
def WrapsImage (lead : Node) (inlines : List Node) : Prop :=
  ∃ before image after, inlines = lead :: (before ++ image :: after) ∧
    image.imageMarkup?.isSome = true ∧ ∀ n ∈ before ++ after, n.isWhitespace = true

end Inlines

namespace Unwrap.Options

open Inlines

theorem leaf_paragraph_eq_rawBlock_iff {o : Options} {tag : Text} {content : List Node}
    {order : MemberOrder} {markup : Text} :
    o.leaf (.paragraph tag content order) = .rawBlock o.format.name markup ↔
      ∃ rule, o.replacement? content = some ⟨rule, markup⟩ := by
  rw [leaf, replacementOf?]
  cases o.replacement? content with
  | none => simp
  | some r =>
    obtain ⟨rule, written⟩ := r
    simp

/-- Every replacement writes its paragraph, up to whitespace and the lead of a wrapped image. -/
theorem exists_written_of_replacement? {o : Options} {content : List Node} {r : Replacement}
    (replaced : o.replacement? content = some r) :
    ∃ omitted, Written content r.markup omitted ∧ ∀ n ∈ omitted, n.isWhitespace = true ∨
      (o.rule? content = some .angle ∧ WrapsImage n content) := by
  rcases replacement?_cases replaced with ⟨-, rule, written⟩ | ⟨-, rule, written⟩
  · have leads := (rule?_eq_angle.mp rule).2
    obtain ⟨tag, s, order, rest, rfl, -⟩ := hasAngleLead_iff.mp leads
    cases single : isSingleImage (rest.dropWhile Node.isWhitespace) with
    | true =>
      obtain ⟨before, image, after, rfl, isImage, white⟩ := isSingleImage_dropWhile_iff.mp single
      rw [angleMarkup?_of_image leads isImage white] at written
      have wrapped : Written (.text tag s order :: before ++ image :: after) r.markup
          (.text tag s order :: before ++ after) := .tag written
      refine ⟨.text tag s order :: before ++ after, wrapped, ?_⟩
      intro n mem
      rcases List.mem_cons.mp mem with rfl | mem
      · exact .inr ⟨rule, before, image, after, rfl, by simp [written], white⟩
      · exact .inl (white n mem)
    | false =>
      rw [angleMarkup?_of_noImage leads single] at written
      exact ⟨[], .flattened written, by simp⟩
  · obtain ⟨image, after, rfl, -, white⟩ := isSingleImage_iff.mp (rule?_eq_image rule).2
    have alone : Written ([] ++ image :: after) r.markup ([] ++ after) := .tag written
    exact ⟨after, alone, fun n mem => .inl (white n mem)⟩

/-- A wrapped image is always written as its tag, and its lead is omitted. -/
theorem exists_replacement?_of_wrapsImage {o : Options} {lead : Node} {content : List Node}
    (rule : o.rule? content = some .angle) (wraps : WrapsImage lead content) :
    ∃ markup, o.replacement? content = some ⟨.angle, markup⟩ ∧
      ∀ omitted, Written content markup omitted → lead ∈ omitted := by
  obtain ⟨before, image, after, rfl, isWritten, white⟩ := wraps
  obtain ⟨markup, written⟩ := Option.isSome_iff_exists.mp isWritten
  have isImage := isImage_of_imageMarkup? written
  have leads := (rule?_eq_angle.mp rule).2
  refine ⟨markup, ?_, fun omitted rendered => rendered.head_mem ?_ ?_⟩
  · simp only [replacement?, rule, angleMarkup?_of_image leads isImage white, written,
      Option.map_some]
  · have mem : image ∈ lead :: (before ++ image :: after) := by simp
    exact flatten?_eq_none_iff.mpr ⟨image, mem, plain?_of_isImage isImage⟩
  · obtain ⟨tag, s, order, rest, shape, -⟩ := hasAngleLead_iff.mp leads
    obtain ⟨rfl, -⟩ := List.cons.inj shape
    rfl

/-- Where a paragraph is replaced, all that the markup omits is whitespace and the bare marker. -/
def KeepsText (o : Options) (content : List Node) : Prop :=
  ∀ (tag : Text) (order : MemberOrder) (markup : Text),
    o.leaf (.paragraph tag content order) = .rawBlock o.format.name markup →
      ∃ omitted, Written content markup omitted ∧ ∀ n ∈ omitted, n.isWhitespace = true ∨ n.IsMarker

/-- The author's text is kept unless the angle rule finds one image behind a run that holds more
than the marker: the tag of the image is then all that is written. -/
theorem keepsText_iff (o : Options) (content : List Node) :
    o.KeepsText content ↔ ∀ lead, o.angle = true →
      hasAngleLead o.requireSpace content = true → WrapsImage lead content → lead.IsMarker := by
  constructor
  · intro keeps lead on leads wraps
    obtain ⟨markup, replaced, omits⟩ :=
      exists_replacement?_of_wrapsImage (rule?_eq_angle.mpr ⟨on, leads⟩) wraps
    obtain ⟨omitted, rendered, only⟩ :=
      keeps [] .tagFirst markup (leaf_paragraph_eq_rawBlock_iff.mpr ⟨.angle, replaced⟩)
    obtain ⟨tag, s, order, rest, rfl, -⟩ := hasAngleLead_iff.mp leads
    obtain ⟨before, image, after, shape, -⟩ := wraps
    obtain ⟨rfl, -⟩ := List.cons.inj shape
    exact (only _ (omits omitted rendered)).resolve_left (by simp [Node.isWhitespace])
  · intro markers tag order markup replaced
    obtain ⟨rule, replaced⟩ := leaf_paragraph_eq_rawBlock_iff.mp replaced
    obtain ⟨omitted, rendered, only⟩ := exists_written_of_replacement? replaced
    refine ⟨omitted, rendered, fun n mem => (only n mem).imp_right ?_⟩
    rintro ⟨rule, wraps⟩
    obtain ⟨on, leads⟩ := rule?_eq_angle.mp rule
    exact markers n on leads wraps

/-- A caption in front of an image, typed as raw markup. -/
def captioned : List Node :=
  [.text "Str" "<b>Plate", .whitespace .softBreak, .image (some {}) [] "a.png" []]

/-- The caption is gone: only the tag of the image is left. -/
theorem not_keepsText_captioned :
    ({} : Options).leaf (.paragraph "Para" captioned) =
        .rawBlock "html" "<img src=\"a.png\" />" ∧
      ¬ ({} : Options).KeepsText captioned := by
  have replaced : ({} : Options).leaf (.paragraph "Para" captioned) =
      .rawBlock "html" "<img src=\"a.png\" />" := rfl
  refine ⟨replaced, fun keeps => ?_⟩
  obtain ⟨omitted, rendered, only⟩ := keeps "Para" .tagFirst _ replaced
  have lost := rendered.head_mem rfl rfl
  exact absurd (only _ lost) (by decide)

end Unwrap.Options

end RawLift
