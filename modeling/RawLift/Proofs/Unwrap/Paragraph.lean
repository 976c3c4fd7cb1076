import RawLift.Gap

/-!
One paragraph under the two rules. The markup that replaces a paragraph always starts with `<`, and
a paragraph that some options leave alone is left alone by all narrower ones.
-/

namespace RawLift

/-! ### Markup -/

namespace Node

theorem head?_of_imageMarkup? {n : Node} {s : Text} (markup : n.imageMarkup? = some s) :
    s.head? = some Inlines.angle := by
  revert markup
  fun_cases imageMarkup? n with
  | case1 =>
    rintro ⟨⟩
    rfl
  | case2 => simp

end Node

namespace Inlines

theorem head?_of_firstImage? {inlines : List Node} {s : Text}
    (markup : firstImage? inlines = some s) : s.head? = some angle := by
  obtain ⟨n, -, markup⟩ := Option.bind_eq_some_iff.mp markup
  exact Node.head?_of_imageMarkup? markup

/-- What the angle rule asks for: a text run that starts with `<` comes first, and if a space is
required it is in the run behind the `<`, or the run ends there and whitespace comes next. -/
theorem hasAngleLead_iff {requireSpace : Bool} {inlines : List Node} :
    hasAngleLead requireSpace inlines = true ↔
      ∃ tag s order rest, inlines = .text tag s order :: rest ∧ s.head? = some angle ∧
        (requireSpace = true → [angle, .char ' '] <+: s ∨
          (s = [angle] ∧ ∃ n, rest.head? = some n ∧ n.isWhitespace = true)) := by
  constructor
  · fun_cases hasAngleLead requireSpace inlines with
    | case1 tag s order rest space =>
      intro lead
      rw [Bool.or_eq_true, List.isPrefixOf_iff_prefix, Bool.and_eq_true, beq_iff_eq] at lead
      refine ⟨tag, s, order, rest, rfl, ?_, fun _ => lead.imp_right fun alone => ⟨alone.1, ?_⟩⟩
      · rcases lead with ⟨t, rfl⟩ | ⟨rfl, -⟩ <;> rfl
      · cases next : rest.head? with
        | none => simp [next] at alone
        | some n => exact ⟨n, rfl, by simpa [next] using alone.2⟩
    | case2 tag s order rest space =>
      intro lead
      exact ⟨tag, s, order, rest, rfl, by simpa using lead, fun h => absurd h space⟩
    | case3 => simp
  · rintro ⟨tag, s, order, rest, rfl, head, space⟩
    cases requireSpace with
    | false => simp [hasAngleLead, head]
    | true =>
      rcases space rfl with starts | ⟨rfl, n, next, white⟩
      · simp [hasAngleLead, starts]
      · simp [hasAngleLead, next, white]

theorem hasAngleLead_mono {strict loose : Bool} (le : loose = true → strict = true)
    {inlines : List Node} (lead : hasAngleLead strict inlines = true) :
    hasAngleLead loose inlines = true := by
  obtain ⟨tag, s, order, rest, shape, head, space⟩ := hasAngleLead_iff.mp lead
  exact hasAngleLead_iff.mpr ⟨tag, s, order, rest, shape, head, fun h => space (le h)⟩

theorem isSingleImage_of_hasAngleLead {requireSpace : Bool} {inlines : List Node}
    (lead : hasAngleLead requireSpace inlines = true) : isSingleImage inlines = false := by
  obtain ⟨tag, s, order, rest, rfl, -⟩ := hasAngleLead_iff.mp lead
  rfl

theorem head?_of_flatten? {requireSpace : Bool} {inlines : List Node} {s : Text}
    (lead : hasAngleLead requireSpace inlines = true) (flat : flatten? inlines = some s) :
    s.head? = some angle := by
  obtain ⟨tag, t, order, rest, rfl, head, -⟩ := hasAngleLead_iff.mp lead
  simp only [flatten?, plain?, Option.bind_eq_bind, Option.bind_eq_some_iff,
    Option.some.injEq] at flat
  obtain ⟨_, rfl, u, -, rfl⟩ := flat
  simp [head]

theorem head?_of_angleMarkup? {requireSpace : Bool} {inlines : List Node} {s : Text}
    (lead : hasAngleLead requireSpace inlines = true)
    (markup : angleMarkup? requireSpace inlines = some s) : s.head? = some angle := by
  rw [angleMarkup?] at markup
  split at markup
  · exact head?_of_firstImage? markup
  · exact head?_of_flatten? lead markup

/-- Once there is a lead, it no longer matters what was required of it. -/
theorem angleMarkup?_eq_of_lead {r r' : Bool} {inlines : List Node}
    (lead : hasAngleLead r inlines = true) (lead' : hasAngleLead r' inlines = true) :
    angleMarkup? r inlines = angleMarkup? r' inlines := by
  rw [angleMarkup?, angleMarkup?, afterLead?, afterLead?, if_pos lead, if_pos lead']

theorem imageGap?_eq_none {inlines : List Node} (whole : ∀ n ∈ inlines, n.altGap? = none) :
    imageGap? inlines = none := by
  cases inlines with
  | nil => rfl
  | cons n rest => exact whole n List.mem_cons_self

theorem angleGap?_eq_none {requireSpace : Bool} {inlines : List Node}
    (whole : ∀ n ∈ inlines, n.altGap? = none) : angleGap? requireSpace inlines = none := by
  rw [angleGap?, Option.bind_eq_none_iff]
  intro rest found
  have after : afterLead? requireSpace inlines = some rest := (Option.filter_eq_some_iff.mp found).1
  rw [afterLead?] at after
  split at after
  · obtain rfl := Option.some.inj after
    apply imageGap?_eq_none
    intro n mem
    apply whole n
    exact List.mem_of_mem_tail ((List.dropWhile_sublist _).subset mem)
  · simp at after

end Inlines

/-! ### Options -/

namespace Unwrap.Options

open Inlines

theorem rule?_eq_angle {o : Options} {content : List Node} :
    o.rule? content = some .angle ↔
      o.angle = true ∧ hasAngleLead o.requireSpace content = true := by
  simp only [rule?]
  grind

theorem rule?_eq_image {o : Options} {content : List Node} (rule : o.rule? content = some .image) :
    o.images = true ∧ isSingleImage content = true := by
  simp only [rule?] at rule
  grind

theorem rule?_of_isSingleImage {o : Options} {content : List Node} (images : o.images = true)
    (single : isSingleImage content = true) : o.rule? content = some .image := by
  have noLead : hasAngleLead o.requireSpace content ≠ true := by
    intro lead
    simp [isSingleImage_of_hasAngleLead lead] at single
  simp [rule?, noLead, images, single]

/-- A replacement is made by the rule that the paragraph falls under. -/
theorem replacement?_cases {o : Options} {content : List Node} {r : Replacement}
    (replaced : o.replacement? content = some r) :
    (r.rule = .angle ∧ o.rule? content = some .angle ∧
      angleMarkup? o.requireSpace content = some r.markup) ∨
    (r.rule = .image ∧ o.rule? content = some .image ∧ firstImage? content = some r.markup) := by
  rw [replacement?] at replaced
  split at replaced
  next rule =>
    obtain ⟨s, markup, rfl⟩ := Option.map_eq_some_iff.mp replaced
    exact .inl ⟨rfl, rule, markup⟩
  next rule =>
    obtain ⟨s, markup, rfl⟩ := Option.map_eq_some_iff.mp replaced
    exact .inr ⟨rfl, rule, markup⟩
  next => cases replaced

theorem head?_of_replacement? {o : Options} {content : List Node} {r : Replacement}
    (replaced : o.replacement? content = some r) : r.markup.head? = some Inlines.angle := by
  rcases replacement?_cases replaced with ⟨-, rule, markup⟩ | ⟨-, -, markup⟩
  · exact head?_of_angleMarkup? (rule?_eq_angle.mp rule).2 markup
  · exact head?_of_firstImage? markup

theorem gap?_paragraph {o : Options} (tag : Text) {content : List Node} (order : MemberOrder)
    (whole : ∀ n ∈ content, n.altGap? = none) : o.gap? (.paragraph tag content order) = none := by
  rw [gap?]
  split
  · exact angleGap?_eq_none whole
  · exact imageGap?_eq_none whole
  · rfl

/-- The rules that the first options have in force are in force in the second, and the first
require the space wherever the second do. Formats are free. -/
structure Narrower (o' o : Options) : Prop where
  angle : o'.angle = true → o.angle = true
  images : o'.images = true → o.images = true
  requireSpace : o.requireSpace = true → o'.requireSpace = true

theorem Narrower.refl (o : Options) : o.Narrower o := ⟨id, id, id⟩

theorem Narrower.replacement?_eq_none {o' o : Options} (narrower : o'.Narrower o)
    {content : List Node} (kept : o.replacement? content = none) :
    o'.replacement? content = none := by
  -- A rule that claims the paragraph now claimed it before, and had no markup for it then.
  cases rule : o'.rule? content with
  | none => simp [replacement?, rule]
  | some r =>
    cases r with
    | angle =>
      obtain ⟨on, lead⟩ := rule?_eq_angle.mp rule
      have loose := hasAngleLead_mono narrower.requireSpace lead
      have rule' := rule?_eq_angle.mpr ⟨narrower.angle on, loose⟩
      simp only [replacement?, rule', Option.map_eq_none_iff] at kept
      simp [replacement?, rule, angleMarkup?_eq_of_lead lead loose, kept]
    | image =>
      obtain ⟨on, single⟩ := rule?_eq_image rule
      have rule' := rule?_of_isSingleImage (narrower.images on) single
      simp only [replacement?, rule', Option.map_eq_none_iff] at kept
      simp [replacement?, rule, kept]

end Unwrap.Options

end RawLift
