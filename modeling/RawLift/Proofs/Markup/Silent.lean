import RawLift.Markup

/-!
Which triples are written as nothing. A triple without any part is, and so is one that holds no more
than pairs whose keys cannot be written; only the first kind counts as empty.
-/

namespace RawLift

namespace Markup

theorem attributesText_eq_nil_iff {as : List Attribute} : attributesText as = [] ↔ as = [] := by
  cases as with
  | nil => simp [attributesText]
  | cons a as =>
    obtain ⟨name, value⟩ := a
    simp [attributesText, attributeText]

theorem unlessEmpty_eq_nil_iff {name value : Text} : unlessEmpty name value = [] ↔ value = [] := by
  cases value <;> simp [unlessEmpty]

end Markup

namespace Attributes

open Markup

/-- A key without characters is no name, so empty triples are written as nothing. -/
theorem isAttributeName_nil : isAttributeName [] = false := rfl

theorem isEmpty_iff {a : Attributes} : a.isEmpty = true ↔
    a.identifier = [] ∧ a.classes = [] ∧ ∀ p ∈ a.pairs, p.1 = [] := by
  simp [isEmpty, and_assoc]

theorem html_eq_nil_iff {a : Attributes} : a.html = [] ↔
    a.identifier = [] ∧ a.classes = [] ∧ ∀ p ∈ a.pairs, isAttributeName p.1 = false := by
  rw [html, attributesText_eq_nil_iff, markup, List.append_eq_nil_iff, List.append_eq_nil_iff,
    unlessEmpty_eq_nil_iff, List.filter_eq_nil_iff, and_assoc]
  simp

theorem html_eq_nil_of_isEmpty {a : Attributes} (empty : a.isEmpty = true) : a.html = [] := by
  obtain ⟨identifier, classes, keyless⟩ := isEmpty_iff.mp empty
  refine html_eq_nil_iff.mpr ⟨identifier, classes, fun p mem => ?_⟩
  rw [keyless p mem, isAttributeName_nil]

/-- No identifier, no classes, and keys of which at least one has characters but none can be
written. -/
structure HoldsUnfitKeys (a : Attributes) : Prop where
  identifier : a.identifier = []
  classes : a.classes = []
  unfit : ∀ p ∈ a.pairs, isAttributeName p.1 = false
  present : ∃ p ∈ a.pairs, p.1 ≠ []

theorem holdsUnfitKeys_iff {a : Attributes} :
    a.HoldsUnfitKeys ↔ a.html = [] ∧ a.isEmpty = false := by
  rw [html_eq_nil_iff, ← Bool.not_eq_true, isEmpty_iff]
  constructor
  · rintro ⟨identifier, classes, unfit, p, mem, key⟩
    exact ⟨⟨identifier, classes, unfit⟩, fun empty => key (empty.2.2 p mem)⟩
  · rintro ⟨⟨identifier, classes, unfit⟩, notEmpty⟩
    have present : ∃ p ∈ a.pairs, p.1 ≠ [] := by simpa [identifier, classes] using notEmpty
    exact ⟨identifier, classes, unfit, present⟩

/-- Empty triples are written as nothing, and of the others just those that hold unfit keys
alone. -/
theorem isEmpty_iff_html_eq_nil (a : Attributes) :
    (a.isEmpty = true → a.html = []) ∧
      ((a.isEmpty = true ↔ a.html = []) ↔ ¬ a.HoldsUnfitKeys) := by
  refine ⟨html_eq_nil_of_isEmpty, ?_⟩
  rw [holdsUnfitKeys_iff]
  constructor
  · rintro agree ⟨nothing, notEmpty⟩
    rw [agree.mpr nothing] at notEmpty
    cases notEmpty
  · intro fit
    refine ⟨html_eq_nil_of_isEmpty, fun nothing => ?_⟩
    cases empty : a.isEmpty with
    | true => rfl
    | false => exact absurd ⟨nothing, empty⟩ fit

/-- One pair, with a blank in its key. -/
def blankInKey : Attributes := { pairs := [("a b", "x")] }

/-- The triple is not empty, and nothing of it is written. -/
theorem not_isEmpty_iff_html_eq_nil_blankInKey :
    ¬ (blankInKey.isEmpty = true ↔ blankInKey.html = []) := by
  decide

end Attributes

end RawLift
