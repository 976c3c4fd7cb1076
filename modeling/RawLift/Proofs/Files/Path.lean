import RawLift.Files

/-!
Paths as they are shown. A path has the same names as the path that is shown for it, and if the
system takes the one it takes the other. So it does not matter which of them is looked up.
-/

namespace RawLift.Path

variable {mark c : CodePoint} {t path : Text} {parts : List Text}

/-! ### Parts of a path -/

theorem splitAt_eq_splitOn (mark : CodePoint) (t : Text) : splitAt mark t = t.splitOn mark := by
  induction t with
  | nil => rfl
  | cons p t ih =>
    rw [splitAt, ih, List.splitOn_cons_eq_if_modifyHead]
    cases split : t.splitOn mark with
    | nil => exact absurd split (List.splitOn_ne_nil mark t)
    | cons part parts => simp

theorem splitAt_ne_nil (mark : CodePoint) (t : Text) : splitAt mark t ≠ [] := by
  rw [splitAt_eq_splitOn]
  exact List.splitOn_ne_nil mark t

theorem splitAt_cons_self (mark : CodePoint) (t : Text) :
    splitAt mark (mark :: t) = [] :: splitAt mark t := by
  simp [splitAt_eq_splitOn, List.splitOn_cons_eq_if_modifyHead]

theorem splitAt_join (nonempty : parts ≠ []) (free : ∀ part ∈ parts, mark ∉ part) :
    splitAt mark (Text.join [mark] parts) = parts := by
  rw [splitAt_eq_splitOn]
  exact List.splitOn_intercalate mark free nonempty

theorem join_splitAt (mark : CodePoint) (t : Text) : Text.join [mark] (splitAt mark t) = t := by
  rw [splitAt_eq_splitOn]
  exact List.intercalate_splitOn mark

theorem mark_not_mem_of_mem_splitAt {part : Text} (mem : part ∈ splitAt mark t) :
    mark ∉ part := by
  induction t generalizing part with
  | nil =>
    rw [splitAt, List.mem_singleton] at mem
    simp [mem]
  | cons p t ih =>
    rw [splitAt] at mem
    split at mem
    next none => exact absurd none (splitAt_ne_nil mark t)
    next first others split =>
      rw [split] at ih
      by_cases here : p = mark
      · rw [if_pos here] at mem
        rcases List.mem_cons.mp mem with rfl | mem
        · simp
        · exact ih mem
      · rw [if_neg here] at mem
        rcases List.mem_cons.mp mem with rfl | mem
        · simpa [Ne.symm here] using ih List.mem_cons_self
        · exact ih (List.mem_cons_of_mem first mem)

theorem mem_join (other : c ≠ mark) : c ∈ Text.join [mark] parts ↔ ∃ part ∈ parts, c ∈ part := by
  change c ∈ [mark].intercalate parts ↔ _
  induction parts with
  | nil => simp
  | cons part parts ih =>
    cases parts with
    | nil => simp
    | cons next parts =>
      rw [List.intercalate_cons_cons, List.mem_append, List.mem_append, ih]
      simp [other]

/-! ### Names -/

/-- What a path consists of between its slashes, as far as it leads on. -/
structure IsName (part : Text) : Prop where
  nonempty : part ≠ []
  moves : part ≠ [.char '.']
  whole : slash ∉ part

/-- The names on a path behind its root. -/
def steps (path : Text) : List Text :=
  (splitAt slash path).filter fun part => part ≠ [] ∧ part ≠ [.char '.']

theorem names_eq (path : Text) : names path = (root? path).toList ++ steps path := rfl

theorem isName_of_mem_steps {part : Text} (mem : part ∈ steps path) : IsName part := by
  obtain ⟨mem, kept⟩ := List.mem_filter.mp mem
  obtain ⟨nonempty, moves⟩ := of_decide_eq_true kept
  exact ⟨nonempty, moves, mark_not_mem_of_mem_splitAt mem⟩

theorem IsName.isRoot_eq_false {part : Text} (name : IsName part) : isRoot part = false := by
  cases part with
  | nil => exact absurd rfl name.nonempty
  | cons p part =>
    have first : p ≠ slash := fun same => name.whole (same ▸ List.mem_cons_self)
    simp [isRoot, first]

/-- A path has no root, or one of the two. -/
theorem root?_cases (path : Text) :
    root? path = none ∨ root? path = some [slash] ∨ root? path = some [slash, slash] := by
  rw [root?]
  split
  · exact .inl rfl
  · exact .inr (.inr rfl)
  · exact .inr (.inl rfl)

section
variable (named : ∀ part ∈ parts, IsName part)
include named

theorem takeWhile_slash_join : (Text.join [slash] parts).takeWhile (· = slash) = [] := by
  cases parts with
  | nil => rfl
  | cons part parts =>
    have name := named part List.mem_cons_self
    cases part with
    | nil => exact absurd rfl name.nonempty
    | cons p part =>
      have first : p ≠ slash := fun same => name.whole (same ▸ List.mem_cons_self)
      have shape : Text.join [slash] ((p :: part) :: parts) =
          p :: Text.join [slash] (part :: parts) := List.intercalate_cons_cons_left
      rw [shape, List.takeWhile_cons_of_neg (by simpa using first)]

/-- Slashes in front make a root, and nothing else of names that are joined by slashes. -/
theorem steps_join (count : Nat) :
    steps (List.replicate count slash ++ Text.join [slash] parts) = parts := by
  induction count with
  | zero =>
    rw [List.replicate_zero, List.nil_append, steps]
    by_cases empty : parts = []
    · rw [empty]
      decide
    · rw [splitAt_join empty fun part mem => (named part mem).whole, List.filter_eq_self]
      intro part mem
      exact decide_eq_true ⟨(named part mem).nonempty, (named part mem).moves⟩
  | succ count ih =>
    rw [List.replicate_succ, List.cons_append, steps, splitAt_cons_self,
      List.filter_cons_of_neg (by simp)]
    exact ih

theorem root?_join (count : Nat) :
    root? (List.replicate count slash ++ Text.join [slash] parts) = match count with
      | 0 => none
      | 2 => some [slash, slash]
      | _ => some [slash] := by
  have leading : (List.replicate count slash ++ Text.join [slash] parts).takeWhile (· = slash) =
      List.replicate count slash := by
    rw [List.takeWhile_append_of_pos (by simp), takeWhile_slash_join named, List.append_nil]
  rw [root?, leading]
  match count with
  | 0 | 1 | 2 | _ + 3 => rfl

end

/-- The path that is shown for a path has the names of the path itself. -/
theorem names_shown (path : Text) : names (shown path) = names path := by
  have named : ∀ part ∈ steps path, IsName part := fun part => isName_of_mem_steps
  rw [shown, names_eq path]
  generalize steps path = parts at named
  have read (count : Nat) := names_eq (List.replicate count slash ++ Text.join [slash] parts)
  simp only [root?_join named, steps_join named] at read
  rcases root?_cases path with none | one | two
  · rw [none, Option.toList_none, List.nil_append]
    cases parts with
    | nil => decide
    | cons part parts =>
      rw [ofNames, (named part List.mem_cons_self).isRoot_eq_false]
      exact read 0
  · rw [one]
    exact read 1
  · rw [two]
    exact read 2

/-! ### Paths that the system takes -/

theorem mem_ofNames {names : List Text} (notSlash : c ≠ slash) (notDot : c ≠ .char '.') :
    c ∈ ofNames names ↔ ∃ name ∈ names, c ∈ name := by
  cases names with
  | nil => simp [ofNames, notDot]
  | cons name rest =>
    rw [ofNames]
    split
    · rw [List.mem_append, mem_join notSlash]
      simp
    · exact mem_join notSlash

theorem mem_steps_iff (notSlash : c ≠ slash) (notDot : c ≠ .char '.') :
    (∃ part ∈ steps path, c ∈ part) ↔ c ∈ path := by
  have whole : c ∈ path ↔ ∃ part ∈ splitAt slash path, c ∈ part := by
    rw [← mem_join notSlash, join_splitAt]
  rw [whole]
  constructor
  · rintro ⟨part, mem, here⟩
    exact ⟨part, (List.mem_filter.mp mem).1, here⟩
  · rintro ⟨part, mem, here⟩
    have kept : part ≠ [] ∧ part ≠ [.char '.'] := by
      constructor <;> rintro rfl
      · cases here
      · exact notDot (List.mem_singleton.mp here)
    exact ⟨part, List.mem_filter.mpr ⟨mem, decide_eq_true kept⟩, here⟩

/-- Showing a path takes away and adds slashes and dots only. -/
theorem mem_shown_iff (notSlash : c ≠ slash) (notDot : c ≠ .char '.') :
    c ∈ shown path ↔ c ∈ path := by
  rw [shown, mem_ofNames notSlash notDot, ← mem_steps_iff notSlash notDot, names_eq]
  have noRoot : ∀ root ∈ (root? path).toList, c ∉ root := by
    rcases root?_cases path with none | one | two
    · simp [none]
    · simp [one, notSlash]
    · simp [two, notSlash]
  constructor
  · rintro ⟨name, mem, here⟩
    rcases List.mem_append.mp mem with root | step
    · exact absurd here (noRoot name root)
    · exact ⟨name, step, here⟩
  · rintro ⟨name, step, here⟩
    exact ⟨name, List.mem_append_right _ step, here⟩

theorem surrogateRun?_eq_none_iff (offset : Nat) :
    surrogateRun? offset path = none ↔ ∀ i, .surrogate i ∈ path → isOctet i = true := by
  induction path generalizing offset with
  | nil => simp [surrogateRun?]
  | cons p path ih =>
    cases p with
    | char c => simp [surrogateRun?, ih]
    | surrogate i =>
      rw [surrogateRun?]
      by_cases octet : isOctet i = true
      · rw [if_pos octet, ih]
        simp only [List.mem_cons, CodePoint.surrogate.injEq, forall_eq_or_imp, octet, true_and]
      · rw [if_neg octet]
        simp [octet]

theorem fault?_eq_none_iff : fault? path = none ↔
    (∀ i, .surrogate i ∈ path → isOctet i = true) ∧ .char '\x00' ∉ path := by
  rw [fault?, ← surrogateRun?_eq_none_iff 0]
  cases surrogateRun? 0 path <;> simp

theorem fault?_shown : fault? (shown path) = none ↔ fault? path = none := by
  have surrogate (i : Fin 2048) : CodePoint.surrogate i ∈ shown path ↔ .surrogate i ∈ path :=
    mem_shown_iff nofun nofun
  have null : CodePoint.char '\x00' ∈ shown path ↔ .char '\x00' ∈ path :=
    mem_shown_iff (by decide) (by decide)
  simp only [fault?_eq_none_iff, surrogate, null]

end RawLift.Path
