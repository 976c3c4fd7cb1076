import RawLift.Markup

/-!
Escaped values. Replacing the active characters one after the other in the whole text, the ampersand
first, is the same as writing for each character by itself what stands for it. What comes of it has
no active character but ampersands that begin a reference, every such text comes of some value, and
reading the references from left to right gives the value back.
-/

namespace RawLift

/-! ### Replacing in turn -/

namespace Text

/-- Puts `new` in the place of each `old`, in the whole text. -/
def replaceEach (old : CodePoint) (new : Text) : Text → Text
  | [] => []
  | p :: t => if p = old then new ++ replaceEach old new t else p :: replaceEach old new t

theorem replaceEach_append (old : CodePoint) (new s t : Text) :
    replaceEach old new (s ++ t) = replaceEach old new s ++ replaceEach old new t := by
  induction s with
  | nil => rfl
  | cons p s ih =>
    rw [List.cons_append, replaceEach, replaceEach, ih]
    split <;> simp

theorem replaceEach_singleton_of_ne {old p : CodePoint} (other : p ≠ old) (new : Text) :
    replaceEach old new [p] = [p] := if_neg other

/-- One replacement after the other, each in what the one before has left. -/
def replaceInTurn : List (CodePoint × Text) → Text → Text
  | [], t => t
  | (old, new) :: replacements, t => replaceInTurn replacements (replaceEach old new t)

section
variable (replacements : List (CodePoint × Text))

theorem replaceInTurn_append (s t : Text) :
    replaceInTurn replacements (s ++ t) =
      replaceInTurn replacements s ++ replaceInTurn replacements t := by
  induction replacements generalizing s t with
  | nil => rfl
  | cons r replacements ih =>
    rw [replaceInTurn, replaceEach_append, ih]
    rfl

theorem replaceInTurn_nil : replaceInTurn replacements [] = [] := by
  induction replacements with
  | nil => rfl
  | cons r replacements ih => exact ih

/-- No replacement looks beyond one code point, so all of them together do not either. -/
theorem replaceInTurn_eq_substitute (t : Text) :
    replaceInTurn replacements t = t.substitute fun p => replaceInTurn replacements [p] := by
  induction t with
  | nil => exact replaceInTurn_nil replacements
  | cons p t ih =>
    rw [← List.singleton_append, replaceInTurn_append, ih]
    rfl

theorem replaceInTurn_singleton_of_not_mem {p : CodePoint}
    (inactive : p ∉ replacements.map Prod.fst) : replaceInTurn replacements [p] = [p] := by
  induction replacements with
  | nil => rfl
  | cons r replacements ih =>
    rw [List.map_cons, List.mem_cons, not_or] at inactive
    rw [replaceInTurn, replaceEach_singleton_of_ne inactive.1, ih inactive.2]

end

end Text

namespace Markup

open Text

/-- The active characters with their references. The references begin with an ampersand, so this is
the one to be replaced first. -/
def references : List (CodePoint × Text) :=
  [(.char '&', "&amp;"), (.char '<', "&lt;"), (.char '>', "&gt;"), (.char '"', "&quot;"),
    (.char '\x27', "&#x27;")]

def escapeInTurn (t : Text) : Text := replaceInTurn references t

theorem mem_references_or (p : CodePoint) :
    (p, reference p) ∈ references ∨ (p ∉ references.map Prod.fst ∧ reference p = [p]) := by
  fun_cases reference p with
  | case6 p amp lt gt quot apos =>
    have inactive : p ∉ references.map Prod.fst := by
      simp only [references, List.map_cons, List.map_nil, List.mem_cons, List.not_mem_nil, not_or]
      exact ⟨amp, lt, gt, quot, apos, nofun⟩
    exact .inr ⟨inactive, rfl⟩
  | _ => exact .inl (by decide)

theorem escapeInTurn_singleton (p : CodePoint) : escapeInTurn [p] = reference p := by
  rcases mem_references_or p with active | ⟨inactive, plain⟩
  · have each : ∀ r ∈ references, escapeInTurn [r.1] = r.2 := by decide
    exact each _ active
  · rw [plain]
    exact replaceInTurn_singleton_of_not_mem references inactive

theorem escapeInTurn_eq_escape (t : Text) : escapeInTurn t = escape t := by
  rw [escape, ← funext escapeInTurn_singleton]
  exact replaceInTurn_eq_substitute references t

theorem escape_cons (p : CodePoint) (t : Text) :
    escape (p :: t) = reference p ++ escape t := rfl

/-! ### Reading references -/

/-- Decodes the references that values are written with, in one pass from left to right. -/
def unescape : Text → Text
  | .char '&' :: .char 'a' :: .char 'm' :: .char 'p' :: .char ';' :: t => .char '&' :: unescape t
  | .char '&' :: .char 'l' :: .char 't' :: .char ';' :: t => .char '<' :: unescape t
  | .char '&' :: .char 'g' :: .char 't' :: .char ';' :: t => .char '>' :: unescape t
  | .char '&' :: .char 'q' :: .char 'u' :: .char 'o' :: .char 't' :: .char ';' :: t =>
    .char '"' :: unescape t
  | .char '&' :: .char '#' :: .char 'x' :: .char '2' :: .char '7' :: .char ';' :: t =>
    .char '\x27' :: unescape t
  | p :: t => p :: unescape t
  | [] => []

theorem unescape_cons {p : CodePoint} (plain : p ≠ .char '&') (t : Text) :
    unescape (p :: t) = p :: unescape t := by
  rw [unescape]
  all_goals
    rintro _ rfl
    exact absurd rfl plain

theorem unescape_reference_append (p : CodePoint) (t : Text) :
    unescape (reference p ++ t) = p :: unescape t := by
  fun_cases reference p with
  | case6 p amp => exact unescape_cons amp t
  | _ => rfl

theorem unescape_escape (t : Text) : unescape (escape t) = t := by
  induction t with
  | nil => rfl
  | cons p t ih => rw [escape_cons, unescape_reference_append, ih]

example : unescape "&amp;lt;" = "&lt;" := rfl

theorem escape_injective : Function.Injective escape :=
  Function.LeftInverse.injective unescape_escape

/-! ### Inert texts -/

/-- The active characters but for the ampersand. -/
def marks : List CodePoint := [.char '<', .char '>', .char '"', .char '\x27']

/-- No character of the text is active: there are no angles and no quotes, and every ampersand
begins a reference. -/
structure Inert (t : Text) : Prop where
  unmarked : ∀ p ∈ t, p ∉ marks
  referring : ∀ rest, .char '&' :: rest <:+ t → ∃ r ∈ references, r.2 <+: .char '&' :: rest

namespace Inert

variable {p : CodePoint} {s t : Text}

theorem nil : Inert [] := ⟨by simp, by simp⟩

theorem suffix (inert : Inert t) (part : s <:+ t) : Inert s where
  unmarked p mem := inert.unmarked p (part.subset mem)
  referring rest tail := inert.referring rest (tail.trans part)

theorem cons (inert : Inert t) (unmarked : p ∉ marks)
    (referring : p = .char '&' → ∃ r ∈ references, r.2 <+: p :: t) : Inert (p :: t) where
  unmarked := List.forall_mem_cons.mpr ⟨unmarked, inert.unmarked⟩
  referring rest tail := by
    rcases List.suffix_cons_iff.mp tail with first | later
    · obtain ⟨rfl, rfl⟩ := List.cons.inj first
      exact referring rfl
    · exact inert.referring rest later

theorem cons_of_inactive (inert : Inert t) (inactive : p ∉ references.map Prod.fst) :
    Inert (p :: t) := by
  obtain ⟨noAmpersand, unmarked⟩ := not_or.mp (mt List.mem_cons.mpr inactive)
  exact inert.cons unmarked fun ampersand => absurd ampersand noAmpersand

theorem append_of_inactive (inert : Inert t)
    (inactive : ∀ p ∈ s, p ∉ references.map Prod.fst) : Inert (s ++ t) := by
  induction s with
  | nil => exact inert
  | cons p s ih =>
    obtain ⟨first, others⟩ := List.forall_mem_cons.mp inactive
    exact (ih others).cons_of_inactive first

end Inert

/-- A reference is an ampersand with nothing active behind it. -/
theorem exists_name_of_mem_references {p : CodePoint} {new : Text} (mem : (p, new) ∈ references) :
    ∃ name, new = .char '&' :: name ∧ ∀ p ∈ name, p ∉ references.map Prod.fst := by
  have shape : ∀ r ∈ references, r.2 = .char '&' :: r.2.tail ∧
      ∀ p ∈ r.2.tail, p ∉ references.map Prod.fst := by decide
  exact ⟨new.tail, shape _ mem⟩

theorem Inert.reference_append {t : Text} (inert : Inert t) (p : CodePoint) :
    Inert (reference p ++ t) := by
  rcases mem_references_or p with active | ⟨inactive, plain⟩
  · obtain ⟨name, shape, quiet⟩ := exists_name_of_mem_references active
    have begins : reference p <+: .char '&' :: (name ++ t) :=
      ⟨t, by rw [shape, List.cons_append]⟩
    rw [shape, List.cons_append]
    exact (inert.append_of_inactive quiet).cons (by decide) fun _ => ⟨_, active, begins⟩
  · rw [plain]
    exact inert.cons_of_inactive inactive

theorem inert_escape (t : Text) : Inert (escape t) := by
  induction t with
  | nil => exact .nil
  | cons p t ih => exact ih.reference_append p

/-- No escaped value holds the quote that ends it. -/
theorem quote_not_mem_escape (t : Text) : .char '"' ∉ escape t := by
  intro mem
  exact (inert_escape t).unmarked _ mem (by decide)

theorem reference_ne_nil (p : CodePoint) : reference p ≠ [] := by
  fun_cases reference p with
  | case6 => simp
  | _ => decide

/-- An inert text begins with what some character is escaped as. -/
theorem Inert.exists_reference_append {p : CodePoint} {t : Text} (inert : Inert (p :: t)) :
    ∃ q rest, p :: t = reference q ++ rest := by
  by_cases ampersand : p = .char '&'
  · subst ampersand
    obtain ⟨r, mem, rest, shape⟩ := inert.referring t List.suffix_rfl
    have written : ∀ r ∈ references, reference r.1 = r.2 := by decide
    exact ⟨r.1, rest, by rw [written r mem, shape]⟩
  · have inactive : p ∉ references.map Prod.fst := by
      refine mt List.mem_cons.mp (not_or.mpr ⟨ampersand, ?_⟩)
      exact inert.unmarked p List.mem_cons_self
    have plain := ((mem_references_or p).resolve_left fun active =>
      inactive (List.mem_map_of_mem active)).2
    exact ⟨p, t, by rw [plain, List.singleton_append]⟩

theorem exists_escape_eq_of_inert {t : Text} (inert : Inert t) : ∃ s, escape s = t := by
  -- On the length, since a reference is several characters of the text at once.
  induction length : t.length using Nat.strongRecOn generalizing t with
  | _ _ ih =>
  subst length
  cases t with
  | nil => exact ⟨[], rfl⟩
  | cons p t =>
    obtain ⟨q, rest, shape⟩ := inert.exists_reference_append
    have shorter : rest.length < (p :: t).length := by
      rw [shape, List.length_append]
      exact Nat.lt_add_of_pos_left (List.length_pos_iff.mpr (reference_ne_nil q))
    obtain ⟨s, written⟩ := ih _ shorter (inert.suffix ⟨reference q, shape.symm⟩) rfl
    exact ⟨q :: s, by rw [escape_cons, written, shape]⟩

/-- Nothing is lost by escaping a value: replacing in turn gives the same as writing a reference for
each active character, and read from left to right it is the value again, also if that looks like a
reference. Values are escaped piece by piece, and what they are escaped as are the inert texts. -/
theorem escape_lossless (s : Text) :
    escapeInTurn s = escape s ∧ unescape (escape s) = s ∧ (∀ t, escape s = escape t ↔ s = t) ∧
      (∀ t, escape (s ++ t) = escape s ++ escape t) ∧ ∀ t, Inert t ↔ ∃ s, escape s = t := by
  refine ⟨escapeInTurn_eq_escape s, unescape_escape s, fun t => escape_injective.eq_iff,
    escape_append s, fun t => ⟨exists_escape_eq_of_inert, ?_⟩⟩
  rintro ⟨s, rfl⟩
  exact inert_escape s

end Markup

end RawLift
