import Mathlib.Data.List.Forall2
import RawLift.Inlines

/-!
Flattening is all or nothing. One inline that stands for no text leaves all of them without one,
wherever it is; otherwise their text is what they spell, one behind the other, and two lists of
inlines flatten together to what they flatten to by themselves.
-/

namespace RawLift.Inlines

/-! ### What inlines spell -/

/-- The text that an inline stands for. -/
inductive Spells : Node → Text → Prop
  | text (tag s : Text) (order : MemberOrder) : Spells (.text tag s order) s
  | softBreak (order : MemberOrder) : Spells (.whitespace .softBreak order) [.char '\n']
  | lineBreak (order : MemberOrder) : Spells (.whitespace .lineBreak order) [.char '\n']
  | rawInline (format s : Text) (order : MemberOrder) : Spells (.rawInline format s order) s

/-- The kinds of inlines that stand for text. -/
def spelled : List Kind := [.text, .softBreak, .lineBreak, .rawInline]

theorem spells_iff {n : Node} {s : Text} : Spells n s ↔ plain? n = some s := by
  constructor
  · intro spells
    cases spells <;> rfl
  · fun_cases plain? n with
    | case1 tag s order => rintro ⟨⟩; exact .text ..
    | case2 => rintro ⟨⟩; exact .softBreak ..
    | case3 => rintro ⟨⟩; exact .lineBreak ..
    | case4 => rintro ⟨⟩; exact .rawInline ..
    | case5 => simp

theorem plain?_eq_none_iff {n : Node} : plain? n = none ↔ n.kind ∉ spelled := by
  cases n with
  | whitespace shape => cases shape <;> simp [plain?, Node.kind, spelled]
  | hollow shell => cases shell <;> simp [plain?, Node.kind, Hollow.kind, spelled]
  | _ => simp [plain?, Node.kind, spelled]

/-! ### All of them -/

theorem flatten?_cons (n : Node) (ns : List Node) :
    flatten? (n :: ns) = (plain? n).bind fun s => (flatten? ns).map (s ++ ·) := by
  rw [flatten?]
  cases plain? n <;> cases flatten? ns <;> rfl

theorem flatten?_eq_some_iff {inlines : List Node} {t : Text} : flatten? inlines = some t ↔
    ∃ parts, List.Forall₂ Spells inlines parts ∧ t = parts.flatten := by
  induction inlines generalizing t with
  | nil => simp [flatten?, eq_comm]
  | cons n ns ih =>
    simp only [flatten?, Option.bind_eq_bind, Option.bind_eq_some_iff, ih, Option.some.injEq,
      ← spells_iff, List.forall₂_cons_left_iff]
    constructor
    · rintro ⟨s, here, _, ⟨parts, later, rfl⟩, rfl⟩
      exact ⟨s :: parts, ⟨s, parts, here, later, rfl⟩, rfl⟩
    · rintro ⟨_, ⟨s, parts, here, later, rfl⟩, rfl⟩
      exact ⟨s, here, parts.flatten, ⟨parts, later, rfl⟩, rfl⟩

theorem flatten?_eq_none_iff {inlines : List Node} :
    flatten? inlines = none ↔ ∃ n ∈ inlines, plain? n = none := by
  induction inlines with
  | nil => simp [flatten?]
  | cons n ns ih =>
    rw [flatten?_cons, List.exists_mem_cons_iff, ← ih]
    cases plain? n <;> simp

/-- Both lists flatten, or they do not flatten together. -/
theorem flatten?_append (ns ms : List Node) :
    flatten? (ns ++ ms) = (flatten? ns).bind fun s => (flatten? ms).map (s ++ ·) := by
  induction ns with
  | nil => simp [flatten?]
  | cons n ns ih =>
    rw [List.cons_append, flatten?_cons, flatten?_cons, ih]
    cases plain? n <;> cases flatten? ns <;> cases flatten? ms <;> simp

/-! ### One by one -/

/-- Goes through the inlines with the parts that there are so far, up to the first inline that
stands for no text. -/
def collect? (parts : List Text) : List Node → Option Text
  | [] => some parts.flatten
  | n :: ns =>
    match plain? n with
    | some s => collect? (parts ++ [s]) ns
    | none => none

/-- No part is given away before the last inline has been looked at. -/
theorem collect?_eq (parts : List Text) (ns : List Node) :
    collect? parts ns = (flatten? ns).map (parts.flatten ++ ·) := by
  induction ns generalizing parts with
  | nil => simp [collect?, flatten?]
  | cons n ns ih =>
    rw [collect?, flatten?_cons]
    cases plain? n with
    | none => rfl
    | some s => simp [ih, Function.comp_def]

theorem collect?_nil (ns : List Node) : collect? [] ns = flatten? ns := by
  simp [collect?_eq]

/-- Inlines flatten unless one of them is of a kind that stands for no text, and then to all that
they spell and nothing else; behind others they flatten to the same, and only together with these.
Going through them one by one makes no difference. -/
theorem flatten?_all_or_none (ns : List Node) :
    collect? [] ns = flatten? ns ∧
      (flatten? ns = none ↔ ∃ n ∈ ns, n.kind ∉ spelled) ∧
      (∀ t, flatten? ns = some t ↔
        ∃ parts, List.Forall₂ Spells ns parts ∧ t = parts.flatten) ∧
      ∀ ms, flatten? (ns ++ ms) = match flatten? ns, flatten? ms with
        | some s, some t => some (s ++ t)
        | _, _ => none := by
  refine ⟨collect?_nil ns, ?_, fun t => flatten?_eq_some_iff, fun ms => ?_⟩
  · simp only [flatten?_eq_none_iff, plain?_eq_none_iff]
  · rw [flatten?_append]
    cases flatten? ns <;> cases flatten? ms <;> rfl

end RawLift.Inlines
