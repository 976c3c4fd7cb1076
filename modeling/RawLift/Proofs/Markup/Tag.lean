import RawLift.Proofs.Markup.Escape
import RawLift.Unwrap

/-!
A reader of `img` tags, and what it reads in the tags that are written for images. No value can end
its quotes and no key can start an attribute of its own, so it reads what the image says.
-/

namespace RawLift

namespace Markup

/-! ### The reader -/

/-- What a reader takes for blanks: the space, and nothing that is not whitespace. -/
structure Blank where
  holds : CodePoint → Bool
  space : holds (.char ' ') = true
  white : ∀ p, holds p = true → Text.isWhitespace p = true

namespace Blank

/-- All whitespace. -/
def unicode : Blank := ⟨Text.isWhitespace, by decide, fun _ white => white⟩

/-- The whitespace of HTML. -/
def html : Blank where
  holds p := p ∈ [.char ' ', .char '\t', .char '\n', .char '\x0c', .char '\r']
  space := by decide
  white p blank := by
    simp only [List.mem_cons, List.not_mem_nil, or_false, decide_eq_true_eq] at blank
    rcases blank with rfl | rfl | rfl | rfl | rfl <;> decide

theorem holds_of_not_white (b : Blank) {p : CodePoint} (solid : Text.isWhitespace p = false) :
    b.holds p = false := by
  apply Bool.eq_false_iff.mpr
  intro blank
  simp [b.white p blank] at solid

/-- A name goes on up to a blank, an equals sign, a slash or a closing angle. -/
def inName (b : Blank) (p : CodePoint) : Bool :=
  !(b.holds p || p ∈ [.char '=', .char '/', .char '>'])

theorem inName_of_isNameCharacter (b : Blank) {p : CodePoint} (known : isNameCharacter p = true) :
    b.inName p = true := by
  simp only [isNameCharacter, Bool.not_eq_true', Bool.or_eq_false_iff, decide_eq_false_iff_not,
    List.mem_cons, not_or] at known
  simp [inName, b.holds_of_not_white known.1.1.1, known]

end Blank

def isInValue (p : CodePoint) : Bool := p ≠ .char '"'

/-- A value behind its opening quote, up to the next quote. -/
def readValue? (t : Text) : Option (Text × Text) :=
  match t.dropWhile isInValue with
  | _ :: rest => some (unescape (t.takeWhile isInValue), rest)
  | [] => none

/-- One attribute: a name, an equals sign and a value in double quotes. -/
def readAttribute? (b : Blank) (t : Text) : Option (Attribute × Text) :=
  match t.takeWhile b.inName, t.dropWhile b.inName with
  | p :: name, .char '=' :: .char '"' :: t' =>
    (readValue? t').map fun (value, rest) => ((p :: name, value), rest)
  | _, _ => none

theorem readValue?_shorter {t value rest : Text} (read : readValue? t = some (value, rest)) :
    rest.length < t.length := by
  have shorter := (List.dropWhile_sublist isInValue (l := t)).length_le
  rw [readValue?] at read
  split at read
  next quote left found =>
    obtain ⟨-, rfl⟩ := Prod.mk.inj (Option.some.inj read)
    rw [found, List.length_cons] at shorter
    omega
  next => simp at read

theorem readAttribute?_shorter {b : Blank} {t rest : Text} {a : Attribute}
    (read : readAttribute? b t = some (a, rest)) : rest.length < t.length := by
  have shorter := (List.dropWhile_sublist b.inName (l := t)).length_le
  rw [readAttribute?] at read
  split at read
  next found =>
    obtain ⟨⟨value, left⟩, readValue, same⟩ := Option.map_eq_some_iff.mp read
    obtain ⟨-, rfl⟩ := Prod.mk.inj same
    have := readValue?_shorter readValue
    simp only [found, List.length_cons] at shorter
    omega
  next => simp at read

/-- The attributes of a tag up to its end, each behind at least one blank. -/
def readAttributes? (b : Blank) (t : Text) : Option (List Attribute × Text) :=
  match t.dropWhile b.holds with
  | .char '/' :: .char '>' :: rest => some ([], rest)
  | t' =>
    if t'.length < t.length then
      match read : readAttribute? b t' with
      | some (a, rest) =>
        have := readAttribute?_shorter read
        (readAttributes? b rest).map fun (as, left) => (a :: as, left)
      | none => none
    else none
termination_by t.length
decreasing_by omega

/-- A whole `img` tag; the text after it is left over. -/
def readImage? (b : Blank) : Text → Option (List Attribute × Text)
  | .char '<' :: .char 'i' :: .char 'm' :: .char 'g' :: t => readAttributes? b t
  | _ => none

/-! ### Reading what was written -/

theorem readValue?_escape (value rest : Text) :
    readValue? (escape value ++ .char '"' :: rest) = some (value, rest) := by
  have inside : ∀ p ∈ escape value, isInValue p = true := by
    intro p mem
    apply decide_eq_true
    rintro rfl
    exact quote_not_mem_escape value mem
  rw [readValue?, List.dropWhile_append_of_pos inside, List.takeWhile_append_of_pos inside]
  simp [isInValue, unescape_escape]

section
variable {b : Blank}

theorem readAttribute?_of_name {name : Text} (valid : isAttributeName name = true)
    (value rest : Text) :
    readAttribute? b (name ++ .char '=' :: .char '"' :: (escape value ++ .char '"' :: rest)) =
      some ((name, value), rest) := by
  obtain ⟨nonempty, known⟩ := Bool.and_eq_true_iff.mp valid
  have inside : ∀ p ∈ name, b.inName p = true := by
    intro p mem
    exact b.inName_of_isNameCharacter (List.all_eq_true.mp known p mem)
  cases name with
  | nil => simp at nonempty
  | cons p name =>
    rw [readAttribute?, List.dropWhile_append_of_pos inside, List.takeWhile_append_of_pos inside]
    simp [Blank.inName, readValue?_escape]

theorem inName_of_readAttribute? {p : CodePoint} {t rest : Text} {a : Attribute}
    (read : readAttribute? b (p :: t) = some (a, rest)) : b.inName p = true := by
  by_cases inside : b.inName p = true
  · exact inside
  · rw [readAttribute?, List.takeWhile_cons_of_neg inside] at read
    simp at read

/-- An attribute behind a blank is read, and then the attributes after it. -/
theorem readAttributes?_cons {t rest : Text} {a : Attribute} (nonempty : t ≠ [])
    (read : readAttribute? b t = some (a, rest)) :
    readAttributes? b (.char ' ' :: t) =
      (readAttributes? b rest).map fun (as, left) => (a :: as, left) := by
  obtain ⟨p, t, rfl⟩ := List.exists_cons_of_ne_nil nonempty
  -- What starts a name is neither a blank nor the slash that ends the tag.
  have inside := inName_of_readAttribute? read
  have solid : ¬ b.holds p = true := by
    intro blank
    simp [Blank.inName, blank] at inside
  rw [readAttributes?, List.dropWhile_cons_of_pos b.space, List.dropWhile_cons_of_neg solid]
  split
  next slash =>
    obtain ⟨rfl, -⟩ := List.cons.inj slash
    simp [Blank.inName] at inside
  next =>
    rw [if_pos (by simp)]
    split
    next found =>
      obtain ⟨rfl, rfl⟩ := Prod.mk.inj (Option.some.inj (read.symm.trans found))
      rfl
    next none =>
      rw [read] at none
      simp at none

theorem readAttributes?_attributesText {as : List Attribute}
    (valid : ∀ a ∈ as, isAttributeName a.1 = true) (rest : Text) :
    readAttributes? b (attributesText as ++ .char ' ' :: .char '/' :: .char '>' :: rest) =
      some (as, rest) := by
  induction as with
  | nil =>
    have slash : b.holds (.char '/') = false := b.holds_of_not_white (by decide)
    rw [readAttributes?, attributesText, List.flatMap_nil, List.nil_append,
      List.dropWhile_cons_of_pos b.space]
    simp [slash]
  | cons a as ih =>
    obtain ⟨name, value⟩ := a
    obtain ⟨first, others⟩ := List.forall_mem_cons.mp valid
    have shape : attributesText ((name, value) :: as) ++
        .char ' ' :: .char '/' :: .char '>' :: rest =
        .char ' ' :: (name ++ .char '=' :: .char '"' :: (escape value ++ .char '"' ::
          (attributesText as ++ .char ' ' :: .char '/' :: .char '>' :: rest))) := by
      simp [attributesText, attributeText]
    rw [shape, readAttributes?_cons (by simp) (readAttribute?_of_name first _ _), ih others]
    rfl

theorem readImage?_selfClosing {as : List Attribute}
    (valid : ∀ a ∈ as, isAttributeName a.1 = true) :
    readImage? b (selfClosing "img" as) = some (as, []) := by
  have shape : selfClosing "img" as = .char '<' :: .char 'i' :: .char 'm' :: .char 'g' ::
      (attributesText as ++ [.char ' ', .char '/', .char '>']) := by
    simp [selfClosing, Text.ofString]
  rw [shape, readImage?, readAttributes?_attributesText valid]

end

/-! ### What an image says -/

/-- A value that is there and not empty, under its name. -/
def present (name : Text) : Option Text → List Attribute
  | some (p :: value) => [(name, p :: value)]
  | _ => []

theorem unlessEmpty_eq_present (name : Text) (value : Option Text) :
    unlessEmpty name (value.getD []) = present name value := by
  match value with
  | none | some [] | some (p :: value) => rfl

theorem isAttributeName_of_mem_present {name : Text} (valid : isAttributeName name = true)
    {value : Option Text} {a : Attribute} (mem : a ∈ present name value) :
    isAttributeName a.1 = true := by
  match value with
  | none | some [] => simp [present] at mem
  | some (p :: value) =>
    rw [present, List.mem_singleton] at mem
    rwa [mem]

end Markup

open Markup

namespace Attributes

/-- The identifier, the classes, and the pairs as far as their keys can be written, in order and
with repeats. -/
def said (a : Attributes) : List Attribute :=
  present "id" (some a.identifier) ++
    (if a.classes = [] then []
      else [(Text.ofString "class", Text.join [.char ' '] a.classes)]) ++
    a.pairs.filter fun pair => isAttributeName pair.1

theorem markup_eq_said (a : Attributes) : a.markup = a.said := by
  have identifier := unlessEmpty_eq_present "id" (some a.identifier)
  rw [Option.getD_some] at identifier
  rw [markup, said, identifier]
  cases a.classes <;> rfl

theorem isAttributeName_of_mem_said {a : Attributes} {pair : Attribute} (mem : pair ∈ a.said) :
    isAttributeName pair.1 = true := by
  have known : isAttributeName "class" = true := by decide
  rw [said, List.mem_append, List.mem_append] at mem
  rcases mem with (identifier | classes) | own
  · exact isAttributeName_of_mem_present (by decide) identifier
  · split at classes
    · simp at classes
    · rwa [List.mem_singleton.mp classes]
  · exact (List.mem_filter.mp own).2

end Attributes

namespace Node

/-- What an image says, name by name. -/
def imageSays (attributes : Option Attributes) (alt : List Node) (url title : Text) :
    List Attribute :=
  present "src" (some url) ++ present "alt" (Inlines.flatten? alt) ++
    present "title" (some title) ++ attributes.elim [] Attributes.said

theorem isAttributeName_of_mem_imageSays {attributes : Option Attributes} {alt : List Node}
    {url title : Text} {pair : Attribute} (mem : pair ∈ imageSays attributes alt url title) :
    isAttributeName pair.1 = true := by
  simp only [imageSays, List.mem_append] at mem
  rcases mem with ((src | text) | tip) | own
  · exact isAttributeName_of_mem_present (by decide) src
  · exact isAttributeName_of_mem_present (by decide) text
  · exact isAttributeName_of_mem_present (by decide) tip
  · cases attributes with
    | none => simp at own
    | some a =>
      rw [Option.elim_some] at own
      exact Attributes.isAttributeName_of_mem_said own

theorem imageMarkup?_eq (attributes : Option Attributes) (alt : List Node) (url title : Text)
    (source : Option Value) (order : MemberOrder) :
    imageMarkup? (.image attributes alt url title source order) =
      some (selfClosing "img" (imageSays attributes alt url title)) := by
  have src := unlessEmpty_eq_present "src" (some url)
  have tip := unlessEmpty_eq_present "title" (some title)
  rw [Option.getD_some] at src tip
  rw [imageMarkup?, imageSays, src, tip, unlessEmpty_eq_present, Attributes.markupOption]
  cases attributes with
  | none => rfl
  | some a => rw [Option.map_some, Option.getD_some, Attributes.markup_eq_said, Option.elim_some]

/-- The tag of an image is read to its last character, and as exactly what the image says. -/
theorem readImage?_imageMarkup? (b : Blank) (attributes : Option Attributes) (alt : List Node)
    (url title : Text) (source : Option Value) (order : MemberOrder) :
    ∃ markup, imageMarkup? (.image attributes alt url title source order) = some markup ∧
      readImage? b markup = some (imageSays attributes alt url title, []) := by
  have valid : ∀ pair ∈ imageSays attributes alt url title, isAttributeName pair.1 = true := by
    intro pair mem
    exact isAttributeName_of_mem_imageSays mem
  exact ⟨_, imageMarkup?_eq attributes alt url title source order, readImage?_selfClosing valid⟩

end Node

end RawLift
