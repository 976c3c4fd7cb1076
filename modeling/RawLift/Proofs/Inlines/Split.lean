import Mathlib.Data.List.DropRight
import RawLift.Proofs.Unwrap.Omitted

/-!
How inlines come apart. A lead is taken off together with all the whitespace behind it, and only
where the paragraph starts with one; index by index this never leaves the list. A single image is
what there is once the whitespace at the end is trimmed.
-/

namespace RawLift.Inlines

variable {requireSpace : Bool} {inlines rest : List Node} {n : Node}

/-! ### Kinds -/

/-- The kinds of whitespace. -/
def blank : List Kind := [.space, .softBreak, .lineBreak]

theorem isWhitespace_iff_kind : n.isWhitespace = true ↔ n.kind ∈ blank := by
  cases n with
  | whitespace shape => cases shape <;> simp [Node.isWhitespace, Node.kind, blank]
  | hollow shell => cases shell <;> simp [Node.isWhitespace, Node.kind, Hollow.kind, blank]
  | _ => simp [Node.isWhitespace, Node.kind, blank]

theorem isImage_iff_kind : n.isImage = true ↔ n.kind = .image := by
  cases n with
  | whitespace shape => cases shape <;> simp [Node.isImage, Node.kind]
  | hollow shell => cases shell <;> simp [Node.isImage, Node.kind, Hollow.kind]
  | _ => simp [Node.isImage, Node.kind]

/-! ### Leads -/

/-- All whitespace is dropped, and nothing else. -/
theorem dropWhile_isWhitespace_eq_iff : inlines.dropWhile Node.isWhitespace = rest ↔
    ∃ white, inlines = white ++ rest ∧ (∀ n ∈ white, n.kind ∈ blank) ∧
      ∀ n ∈ rest.head?, n.kind ∉ blank := by
  simp only [← isWhitespace_iff_kind, Bool.not_eq_true]
  constructor
  · rintro rfl
    refine ⟨inlines.takeWhile Node.isWhitespace, List.takeWhile_append_dropWhile.symm,
      fun n mem => List.mem_takeWhile_imp mem, fun n head => ?_⟩
    simpa [Option.mem_def.mp head] using List.head?_dropWhile_not Node.isWhitespace inlines
  · rintro ⟨white, rfl, all, solid⟩
    rw [List.dropWhile_append_of_pos all]
    cases rest with
    | nil => rfl
    | cons n rest => exact List.dropWhile_cons_of_neg (by simp [solid n rfl])

/-- One inline, whitespace behind it, and then the rest, which does not begin with whitespace. -/
def LeadsInto (inlines rest : List Node) : Prop :=
  ∃ first white, inlines = first :: (white ++ rest) ∧ (∀ n ∈ white, n.kind ∈ blank) ∧
    ∀ n ∈ rest.head?, n.kind ∉ blank

theorem leadsInto_cons_iff {first : Node} {behind : List Node} :
    LeadsInto (first :: behind) rest ↔ behind.dropWhile Node.isWhitespace = rest := by
  rw [dropWhile_isWhitespace_eq_iff]
  constructor
  · rintro ⟨_, white, shape, split⟩
    exact ⟨white, (List.cons.inj shape).2, split⟩
  · rintro ⟨white, rfl, split⟩
    exact ⟨first, white, rfl, split⟩

theorem afterLead?_eq_none_iff :
    afterLead? requireSpace inlines = none ↔ hasAngleLead requireSpace inlines = false := by
  simp [afterLead?]

theorem afterLead?_eq_some_iff : afterLead? requireSpace inlines = some rest ↔
    hasAngleLead requireSpace inlines = true ∧ LeadsInto inlines rest := by
  by_cases leads : hasAngleLead requireSpace inlines = true
  · obtain ⟨tag, s, order, behind, rfl, -⟩ := hasAngleLead_iff.mp leads
    rw [afterLead?, if_pos leads, Option.some.injEq, List.tail_cons, leadsInto_cons_iff,
      and_iff_right leads]
  · simp [afterLead?, leads]

/-! ### Index by index -/

/-- Goes on from an index as long as there is whitespace at it. -/
def pastWhitespace (inlines : List Node) (index : Nat) : Nat :=
  if h : index < inlines.length then
    if inlines[index].isWhitespace then pastWhitespace inlines (index + 1) else index
  else index
termination_by inlines.length - index

theorem drop_pastWhitespace (inlines : List Node) (index : Nat) :
    inlines.drop (pastWhitespace inlines index) =
      (inlines.drop index).dropWhile Node.isWhitespace := by
  fun_induction pastWhitespace inlines index with
  | case1 index inside white ih =>
    rw [ih, List.drop_eq_getElem_cons inside, List.dropWhile_cons_of_pos white]
  | case2 index inside solid =>
    rw [List.drop_eq_getElem_cons inside, List.dropWhile_cons_of_neg solid]
  | case3 index outside =>
    rw [List.drop_eq_nil_of_le (Nat.le_of_not_lt outside), List.dropWhile_nil]

theorem pastWhitespace_le (inlines : List Node) (index : Nat) :
    pastWhitespace inlines index ≤ max index inlines.length := by
  fun_induction pastWhitespace inlines index with
  | case1 index inside white ih => omega
  | case2 | case3 => exact Nat.le_max_left ..

theorem afterLead?_eq_drop (requireSpace : Bool) (inlines : List Node) :
    afterLead? requireSpace inlines = if hasAngleLead requireSpace inlines then
      some (inlines.drop (pastWhitespace inlines 1)) else none := by
  rw [afterLead?, drop_pastWhitespace, List.drop_one]

/-! ### Images -/

theorem isSingleImage_iff_trimmed : isSingleImage inlines = true ↔
    ∃ image, inlines.rdropWhile Node.isWhitespace = [image] ∧ image.isImage = true := by
  rw [isSingleImage_iff]
  constructor
  · rintro ⟨image, after, rfl, isImage, white⟩
    have white' : ∀ n ∈ after.reverse, n.isWhitespace = true := by simpa using white
    refine ⟨image, ?_, isImage⟩
    rw [List.rdropWhile, List.reverse_cons, List.dropWhile_append_of_pos white',
      List.dropWhile_cons_of_neg (by simp [isWhitespace_of_isImage isImage])]
    rfl
  · rintro ⟨image, trimmed, isImage⟩
    refine ⟨image, inlines.rtakeWhile Node.isWhitespace, ?_, isImage, ?_⟩
    · rw [← List.singleton_append, ← trimmed, List.rdropWhile_append_rtakeWhile]
    · exact fun n mem => List.mem_rtakeWhile_imp mem

/-- There is something behind a lead just if the paragraph starts with one, and it is what is left
once the first inline and all the whitespace behind that are taken off; going on index by index
takes off the same and stays in the list. A single image is all that is left once the whitespace at
the end is trimmed. -/
theorem afterLead?_isSingleImage_split (requireSpace : Bool) (inlines : List Node) :
    (∀ tag order, afterLead? requireSpace inlines = none ↔
      (Node.paragraph tag inlines order).isAngleParagraph requireSpace = false) ∧
    (∀ tag order rest, afterLead? requireSpace inlines = some rest ↔
      (Node.paragraph tag inlines order).isAngleParagraph requireSpace = true ∧
        LeadsInto inlines rest) ∧
    (pastWhitespace inlines 1 ≤ max 1 inlines.length ∧
      ∀ tag order, afterLead? requireSpace inlines =
        if (Node.paragraph tag inlines order).isAngleParagraph requireSpace then
          some (inlines.drop (pastWhitespace inlines 1)) else none) ∧
    (isSingleImage inlines = true ↔
      ∃ image, inlines.rdropWhile Node.isWhitespace = [image] ∧ image.kind = .image) := by
  refine ⟨fun _ _ => afterLead?_eq_none_iff, fun _ _ _ => afterLead?_eq_some_iff, ?_, ?_⟩
  · exact ⟨pastWhitespace_le inlines 1, fun _ _ => afterLead?_eq_drop requireSpace inlines⟩
  · simp only [isSingleImage_iff_trimmed, isImage_iff_kind]

end RawLift.Inlines
