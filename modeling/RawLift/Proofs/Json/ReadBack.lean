import RawLift.Proofs.Document.Members
import RawLift.Proofs.Json.Readable

/-!
Writing a value and reading the text back. Layouts add blanks only where the reader skips them, so
every readable value comes back as it was, the order of members included.
-/

namespace RawLift

namespace Value

mutual
/-- The strings in a value, and the keys of its objects, at all depths. -/
def texts : Value → List Text
  | .string s => [s]
  | .array vs => textsOfElements vs
  | .object ms => textsOfMembers ms
  | _ => []

def textsOfElements : List Value → List Text
  | [] => []
  | v :: vs => texts v ++ textsOfElements vs

def textsOfMembers : Members → List Text
  | [] => []
  | (k, v) :: ms => k :: texts v ++ textsOfMembers ms
end

theorem textsOfElements_eq_flatMap (vs : List Value) : textsOfElements vs = vs.flatMap texts := by
  induction vs with
  | nil => rfl
  | cons v vs ih => rw [textsOfElements, ih, List.flatMap_cons]

theorem textsOfMembers_eq_flatMap (ms : Members) :
    textsOfMembers ms = ms.flatMap fun m => m.1 :: m.2.texts := by
  induction ms with
  | nil => rfl
  | cons m ms ih => rw [textsOfMembers, ih, List.flatMap_cons]

@[simp] theorem mem_texts_array {t : Text} {vs : List Value} :
    t ∈ (array vs).texts ↔ ∃ v ∈ vs, t ∈ v.texts := by
  rw [texts, textsOfElements_eq_flatMap, List.mem_flatMap]

@[simp] theorem mem_texts_object {t : Text} {ms : Members} :
    t ∈ (object ms).texts ↔ ∃ m ∈ ms, t = m.1 ∨ t ∈ m.2.texts := by
  simp [texts, textsOfMembers_eq_flatMap]

end Value

namespace Json

/-- Where escapes are used for all but ASCII, no two of them make up a surrogate pair. -/
def Layout.Separates (l : Layout) (v : Value) : Prop :=
  l.asciiOnly = true → ∀ t ∈ v.texts, Unpaired t

instance (l : Layout) (v : Value) : Decidable (l.Separates v) :=
  inferInstanceAs (Decidable (_ → ∀ t ∈ v.texts, Unpaired t))

/-! ### Blanks -/

theorem isBlank_of_mem_newline (l : Layout) (depth : Nat) :
    ∀ p ∈ l.newline depth, isBlank p = true := by
  rw [Layout.newline]
  cases l.indent with
  | none => simp
  | some width =>
    simp only [List.mem_cons, List.mem_replicate]
    rintro p (rfl | ⟨-, rfl⟩) <;> rfl

theorem skipBlank_newline_append (l : Layout) (depth : Nat) (s : Text) :
    skipBlank (l.newline depth ++ s) = skipBlank s :=
  List.dropWhile_append_of_pos (isBlank_of_mem_newline l depth)

theorem skipBlank_cons {p : CodePoint} (plain : isBlank p = false) (s : Text) :
    skipBlank (p :: s) = p :: s := by
  rw [skipBlank, List.dropWhile_cons, plain]
  rfl

theorem skipBlank_colon_append (l : Layout) (s : Text) :
    ∃ after, skipBlank (l.colon ++ s) = .char ':' :: after ∧ skipBlank after = skipBlank s := by
  rw [Layout.colon]
  split
  · exact ⟨s, rfl, rfl⟩
  · exact ⟨.char ' ' :: s, rfl, rfl⟩

theorem Delimited.cons {p : CodePoint} (delimiter : p ∈ delimiters) (rest : Text) :
    Delimited (p :: rest) := by
  rintro q ⟨⟩
  exact delimiter

theorem Delimited.newline_append {rest : Text} (delimited : Delimited rest) (l : Layout)
    (depth : Nat) : Delimited (l.newline depth ++ rest) := by
  rw [Layout.newline]
  cases l.indent with
  | none => exact delimited
  | some width => exact .cons (by decide) _

/-! ### Scalars -/

/-- The value is read off its text in this layout, whatever comes after it. -/
def ReadsBack (l : Layout) (v : Value) : Prop :=
  ∀ depth rest, Delimited rest → Reads (readValue (valueText l depth v ++ rest)) v rest

section
variable {l : Layout}

theorem readsBack_of_isScalar {v : Value} (scalar : ∀ depth, IsScalar (valueText l depth v) v) :
    ReadsBack l v := by
  intro depth rest delimited
  obtain ⟨p, s, start, mark, -⟩ := (scalar depth).start
  have read := (scalar depth).reads rest delimited
  simp only [otherMarks, List.mem_cons, not_or] at mark
  rw [start] at read ⊢
  exact reads_scalar read ⟨mark.1, mark.2.1, mark.2.2.1⟩

theorem quoted_append (asciiOnly : Bool) (t s : Text) :
    quoted asciiOnly t ++ s =
      .char '"' :: (t.substitute (escaped asciiOnly) ++ .char '"' :: s) := by
  simp [quoted]

theorem readsBack_string {t : Text} (unpaired : l.asciiOnly = true → Unpaired t) :
    ReadsBack l (.string t) := by
  intro depth rest _
  rw [valueText, quoted_append]
  exact reads_string (reads_quoted unpaired rest)

/-- What a value starts with is no blank, not the end of an array, and no byte order mark. -/
theorem exists_valueText_eq_cons {v : Value} (readable : v.Readable) (depth : Nat) :
    ∃ p s, valueText l depth v = p :: s ∧ isBlank p = false ∧ p ≠ .char ']' ∧
      p ≠ byteOrderMark := by
  have number {n : Number} (readable : (Value.number n).Readable) :
      ∃ p s, writtenNumber n = p :: s ∧ isBlank p = false ∧ p ≠ .char ']' ∧
        p ≠ byteOrderMark := by
    obtain ⟨p, s, start, mark, plain⟩ := (isScalar_number readable).start
    simp only [otherMarks, List.mem_cons, not_or] at mark
    exact ⟨p, s, start, plain, mark.2.2.2.1, mark.2.2.2.2.1⟩
  cases readable with
  | null => exact ⟨_, _, rfl, rfl, by decide⟩
  | bool b => cases b <;> exact ⟨_, _, rfl, rfl, by decide⟩
  | int short => exact number (.int short)
  | real x => exact number (.real x)
  | string s => exact ⟨_, _, rfl, rfl, by decide⟩
  | @array vs => cases vs <;> exact ⟨_, _, rfl, rfl, by decide⟩
  | @object ms => cases ms <;> exact ⟨_, _, rfl, rfl, by decide⟩

theorem skipBlank_valueText_append {v : Value} (readable : v.Readable) (depth : Nat) (s : Text) :
    skipBlank (valueText l depth v ++ s) = valueText l depth v ++ s := by
  obtain ⟨p, t, start, plain, -⟩ := exists_valueText_eq_cons (l := l) readable depth
  rw [start, List.cons_append, skipBlank_cons plain]

/-! ### Elements and members -/

theorem reads_elementTexts {v : Value} {vs : List Value} (readable : ∀ w ∈ v :: vs, w.Readable)
    (back : ∀ w ∈ v :: vs, ReadsBack l w) (depth outer : Nat) (rest : Text) :
    Reads (readElements (valueText l depth v ++ (elementTexts l depth vs ++
      (l.newline outer ++ .char ']' :: rest)))) (v :: vs) rest := by
  induction vs generalizing v with
  | nil =>
    have delimited := (Delimited.cons (p := .char ']') (by decide) rest).newline_append l outer
    refine reads_lastElement (back v List.mem_cons_self depth _ delimited) ?_
    rw [elementTexts, List.nil_append, skipBlank_newline_append, skipBlank_cons rfl]
  | cons w vs ih =>
    rw [List.forall_mem_cons] at readable back
    have more := ih readable.2 back.2
    have next := readable.2 w List.mem_cons_self
    have shape : elementTexts l depth (w :: vs) ++ (l.newline outer ++ .char ']' :: rest) =
        .char ',' :: (l.newline depth ++ (valueText l depth w ++ (elementTexts l depth vs ++
          (l.newline outer ++ .char ']' :: rest)))) := by
      simp [elementTexts]
    rw [shape]
    refine reads_nextElement (back.1 depth _ (.cons (by decide) _)) (skipBlank_cons rfl _) ?_
    rw [skipBlank_newline_append, skipBlank_valueText_append next]
    exact more

theorem reads_memberTexts {k : Text} {v : Value} {ms : Members}
    (readable : ∀ m ∈ (k, v) :: ms, m.2.Readable)
    (unpaired : ∀ m ∈ (k, v) :: ms, l.asciiOnly = true → Unpaired m.1)
    (back : ∀ m ∈ (k, v) :: ms, ReadsBack l m.2) (depth outer : Nat) (rest : Text) :
    Reads (readMembers (quoted l.asciiOnly k ++ (l.colon ++ (valueText l depth v ++
      (memberTexts l depth ms ++ (l.newline outer ++ .char '\x7d' :: rest))))))
      ((k, v) :: ms) rest := by
  have value {v : Value} (readable : v.Readable) (back : ReadsBack l v) {t after : Text}
      (delimited : Delimited t) (blank : skipBlank after = skipBlank (valueText l depth v ++ t)) :
      Reads (readValue (skipBlank after)) v t := by
    rw [blank, skipBlank_valueText_append readable]
    exact back depth t delimited
  induction ms generalizing k v with
  | nil =>
    have delimited := (Delimited.cons (p := .char '\x7d') (by decide) rest).newline_append l outer
    obtain ⟨readable, -⟩ := List.forall_mem_cons.mp readable
    obtain ⟨unpaired, -⟩ := List.forall_mem_cons.mp unpaired
    obtain ⟨back, -⟩ := List.forall_mem_cons.mp back
    rw [memberTexts, List.nil_append, quoted_append]
    obtain ⟨after, colon, blank⟩ := skipBlank_colon_append l
      (valueText l depth v ++ (l.newline outer ++ .char '\x7d' :: rest))
    refine reads_lastMember (reads_quoted unpaired _) colon (value readable back delimited blank) ?_
    rw [skipBlank_newline_append, skipBlank_cons rfl]
  | cons m ms ih =>
    obtain ⟨k', v'⟩ := m
    obtain ⟨readable, readable'⟩ := List.forall_mem_cons.mp readable
    obtain ⟨unpaired, unpaired'⟩ := List.forall_mem_cons.mp unpaired
    obtain ⟨back, back'⟩ := List.forall_mem_cons.mp back
    have more := ih readable' unpaired' back'
    have shape : memberTexts l depth ((k', v') :: ms) ++ (l.newline outer ++ .char '\x7d' :: rest) =
        .char ',' :: (l.newline depth ++ (quoted l.asciiOnly k' ++ (l.colon ++
          (valueText l depth v' ++ (memberTexts l depth ms ++
            (l.newline outer ++ .char '\x7d' :: rest)))))) := by
      simp [memberTexts]
    rw [shape, quoted_append l.asciiOnly k]
    obtain ⟨after, colon, blank⟩ := skipBlank_colon_append l (valueText l depth v ++ _)
    refine reads_nextMember (reads_quoted unpaired _) colon
      (value readable back (.cons (by decide) _) blank) (skipBlank_cons rfl _) ?_
    rw [skipBlank_newline_append, quoted_append, skipBlank_cons rfl, ← quoted_append]
    exact more

theorem readsBack_array {vs : List Value} (readable : ∀ v ∈ vs, v.Readable)
    (back : ∀ v ∈ vs, ReadsBack l v) : ReadsBack l (.array vs) := by
  intro depth rest _
  cases vs with
  | nil => exact reads_emptyArray (skipBlank_cons rfl rest)
  | cons v vs =>
    have elements := reads_elementTexts readable back (depth + 1) depth rest
    have shape : valueText l depth (.array (v :: vs)) ++ rest =
        .char '[' :: (l.newline (depth + 1) ++ (valueText l (depth + 1) v ++
          (elementTexts l (depth + 1) vs ++ (l.newline depth ++ .char ']' :: rest)))) := by
      simp [valueText]
    obtain ⟨p, t, start, plain, opened, -⟩ :=
      exists_valueText_eq_cons (l := l) (readable v List.mem_cons_self) (depth + 1)
    rw [start, List.cons_append] at elements
    rw [shape]
    refine reads_array ?_ opened elements
    rw [skipBlank_newline_append, start, List.cons_append, skipBlank_cons plain]

theorem readsBack_object {ms : Members} (distinct : ms.keys.Nodup)
    (readable : ∀ m ∈ ms, m.2.Readable) (unpaired : ∀ m ∈ ms, l.asciiOnly = true → Unpaired m.1)
    (back : ∀ m ∈ ms, ReadsBack l m.2) : ReadsBack l (.object ms) := by
  intro depth rest _
  cases ms with
  | nil => exact reads_emptyObject (skipBlank_cons rfl rest)
  | cons m ms =>
    obtain ⟨k, v⟩ := m
    have pairs := reads_memberTexts readable unpaired back (depth + 1) depth rest
    have shape : valueText l depth (.object ((k, v) :: ms)) ++ rest =
        .char '\x7b' :: (l.newline (depth + 1) ++ (quoted l.asciiOnly k ++ (l.colon ++
          (valueText l (depth + 1) v ++ (memberTexts l (depth + 1) ms ++
            (l.newline depth ++ .char '\x7d' :: rest)))))) := by
      simp [valueText]
    have same : Members.ofPairs ((k, v) :: ms) = (k, v) :: ms := Members.ofPairs_of_nodup distinct
    rw [quoted_append] at pairs
    rw [shape, ← same]
    refine reads_object ?_ (by decide) pairs
    rw [skipBlank_newline_append, quoted_append, skipBlank_cons rfl]

end

theorem readsBack {l : Layout} {v : Value} (readable : v.Readable) (separates : l.Separates v) :
    ReadsBack l v := by
  induction readable with
  | null => exact readsBack_of_isScalar fun _ => isScalar_null
  | bool b =>
    cases b with
    | true => exact readsBack_of_isScalar fun _ => isScalar_true
    | false => exact readsBack_of_isScalar fun _ => isScalar_false
  | int short => exact readsBack_of_isScalar fun _ => isScalar_number (.int short)
  | real x => exact readsBack_of_isScalar fun _ => isScalar_number (.real x)
  | string s =>
    apply readsBack_string
    intro ascii
    exact separates ascii s (by simp [Value.texts])
  | array items ih =>
    apply readsBack_array items
    intro v mem
    apply ih v mem
    intro ascii t inside
    exact separates ascii t (Value.mem_texts_array.mpr ⟨v, mem, inside⟩)
  | object distinct members ih =>
    apply readsBack_object distinct members
    · intro m mem ascii
      exact separates ascii m.1 (Value.mem_texts_object.mpr ⟨m, mem, .inl rfl⟩)
    · intro m mem
      apply ih m mem
      intro ascii t inside
      exact separates ascii t (Value.mem_texts_object.mpr ⟨m, mem, .inr inside⟩)

/-! ### Whole texts -/

/-- Reading undoes writing. -/
theorem read_valueText {l : Layout} {v : Value} (readable : v.Readable)
    (separates : l.Separates v) : read (valueText l 0 v) = .ok v := by
  obtain ⟨p, s, start, plain, -, unmarked⟩ := exists_valueText_eq_cons (l := l) readable 0
  have noMark : (valueText l 0 v).head? ≠ some byteOrderMark := by
    rw [start]
    simpa using unmarked
  have noBlank : skipBlank (valueText l 0 v) = valueText l 0 v := by
    rw [start, skipBlank_cons plain]
  have value := readsBack readable separates 0 [] (by simp [Delimited])
  apply read_of_reads noMark
  rwa [noBlank, ← List.append_nil (valueText l 0 v)]

section
variable [Machine]

/-- A layout that some value has a text in. -/
def Layout.Usable (l : Layout) : Prop := ∃ v t, write l v = .ok t

theorem Layout.usable_iff {l : Layout} : l.Usable ↔ l.excess? = none := by
  constructor
  · rintro ⟨v, t, written⟩
    rw [write] at written
    split at written
    · cases written
    next noObstacle =>
      simp only [obstacle?, Option.or_eq_none_iff, Option.map_eq_none_iff] at noObstacle
      exact noObstacle.2.1
  · intro fits
    refine ⟨.null, "null", ?_⟩
    simp [write, obstacle?, unwritables, fits, valueText]

/-- Writing a readable value and reading the text gives the value back. -/
theorem read_write {l : Layout} (usable : l.Usable) {v : Value} (readable : v.Readable)
    (separates : l.Separates v) : ∃ t, write l v = .ok t ∧ read t = .ok v := by
  have noObstacle : obstacle? l v = none := by
    rw [obstacle?, readable.isJson, Layout.usable_iff.mp usable]
    rfl
  refine ⟨valueText l 0 v, ?_, read_valueText readable separates⟩
  rw [write, noObstacle]

end

end Json

end RawLift
